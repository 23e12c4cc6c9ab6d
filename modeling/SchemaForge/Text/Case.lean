import SchemaForge.Text.CaseTable

/-!
# Letter case

Upper and lower case of texts in all scripts. A character can become several, as `ß` becomes `SS`,
and a Greek sigma has a form of its own at the end of a word.

* `upperChar`, `lowerChar`: the images of one character.
* `upper`, `lower`: the images of a text.
* `upperFirst`, `lowerFirst`: only the first character is changed.
* `capitalize`: the first character as at the start of a word, the rest in lower case.
-/

namespace SchemaForge.Text

/-- The shift of the run that holds a code point. -/
def shiftOf (runs : List (Nat × Nat × Nat × Int)) (code : Nat) : Int :=
  match runs.find? fun (first, last, step, _) =>
      first ≤ code && code ≤ last && (code - first) % step == 0 with
  | some (_, _, _, shift) => shift
  | none => 0

/-- The image of a character under a long list, or else under a list of runs. -/
def mapChar (long : List (Nat × List Nat)) (runs : List (Nat × Nat × Nat × Int)) (c : Char) :
    List Char :=
  match long.lookup c.toNat with
  | some codes => codes.map Char.ofNat
  | none => [Char.ofNat (c.toNat + shiftOf runs c.toNat).toNat]

/-- The upper case of a character. -/
def upperChar (c : Char) : List Char :=
  if c.toNat < 0x80 then [c.toUpper] else mapChar CaseTable.upperLong CaseTable.upperRuns c

/-- The lower case of a character on its own. -/
def lowerChar (c : Char) : List Char :=
  if c.toNat < 0x80 then [c.toLower] else mapChar CaseTable.lowerLong CaseTable.lowerRuns c

/-- The form of a character at the start of a word. -/
def titleChar (c : Char) : List Char :=
  match CaseTable.titleForms.lookup c.toNat with
  | some codes => codes.map Char.ofNat
  | none => upperChar c

/-- Whether a code point lies in one of the ranges. -/
def inRanges (ranges : List (Nat × Nat)) (c : Char) : Bool :=
  ranges.any fun (first, last) => first ≤ c.toNat && c.toNat ≤ last

/-- Whether the first character that is no mark is a letter with case. -/
def meetsCased (cs : List Char) : Bool :=
  match cs.dropWhile (inRanges CaseTable.ignorableRanges) with
  | [] => false
  | c :: _ => inRanges CaseTable.casedRanges c

/-- A capital sigma that ends a word: letters with case before it, none after it. -/
def endsWord (before after : List Char) : Bool :=
  meetsCased before && !meetsCased after

/-- Lower case of a text, given the characters before it in reverse. -/
def lowerFrom (before : List Char) : List Char → List Char
  | [] => []
  | c :: rest =>
    (if c == 'Σ' then [if endsWord before rest then 'ς' else 'σ'] else lowerChar c)
      ++ lowerFrom (c :: before) rest

/-- The upper case of a text. -/
def upper (cs : List Char) : List Char := cs.flatMap upperChar

/-- The lower case of a text. -/
def lower (cs : List Char) : List Char := lowerFrom [] cs

/-- The text with its first character in upper case. -/
def upperFirst : List Char → List Char
  | [] => []
  | c :: rest => upperChar c ++ rest

/-- The text with its first character in lower case. -/
def lowerFirst : List Char → List Char
  | [] => []
  | c :: rest => lower [c] ++ rest

/-- The first character as at the start of a word, the others in lower case. -/
def capitalize : List Char → List Char
  | [] => []
  | c :: rest => titleChar c ++ lowerFrom [c] rest

end SchemaForge.Text
