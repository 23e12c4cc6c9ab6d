import Mathlib.Data.List.Nodup
import SchemaForge.Proofs.Code.Clear
import SchemaForge.Proofs.Code.Escapes
import SchemaForge.Proofs.Code.Words

/-!
# Names of properties in an object literal

A key of an object literal is the literal of a name, or the name itself if it is an identifier.
White space, line ends and comments around a key are not part of it.

* `Name.isWord`: identifiers in full; **`isIdentifier_iff`**: what else may stand unquoted.
* `propertyNames`: the names that the keys of the first object literal in a text denote.
* `namesFrom_of_clearScan`, `namesFrom_after_of_clearScan`: what is between keys, and what is behind
  one up to the comma.
* `denoted`: the name that the key of a property denotes; **`namesFrom_key`**: a key as it is read;
  `denoted_eq_iff`: when it denotes the name of its property.
* `Field.Named`: fields with the keys of given names; **`propertyNames_object`**: the names in the
  text of their object literal.
-/

namespace SchemaForge

namespace Name

/-! ## Identifiers -/

/-- Whether a name is an identifier in full. -/
def isWord (name : String) : Bool :=
  match name.toList with
  | [] => false
  | c :: rest => isIdentifierStart c && rest.all isIdentifierChar

/-- A name that is an identifier with a line feed behind it. -/
def EndsLine (name : String) : Prop := ∃ word, isWord word ∧ name = word ++ "\n"

variable {name word : String} {c : Char}

theorem isWord_iff : isWord name ↔ ∃ c rest, name.toList = c :: rest ∧
    isIdentifierStart c ∧ ∀ d ∈ rest, isIdentifierChar d := by
  unfold isWord
  split
  · simp_all
  · rename_i c rest h
    simp [h]

theorem isIdentifier_eq (name : String) :
    isIdentifier name = isWord (String.ofList (dropFinalNewline name.toList)) := by
  cases h : dropFinalNewline name.toList <;> simp [isIdentifier, isWord, h]

theorem isIdentifierChar_of_mem (h : isWord word) : ∀ c ∈ word.toList, isIdentifierChar c := by
  obtain ⟨c, rest, hword, hc, hrest⟩ := isWord_iff.mp h
  rw [hword, List.forall_mem_cons]
  exact ⟨by simp [isIdentifierChar, hc], hrest⟩

theorem dropFinalNewline_of_isWord (h : isWord word) :
    dropFinalNewline word.toList = word.toList := by
  have hlast : ¬ word.toList.getLast? = some '\n' := fun hl =>
    absurd (isIdentifierChar_of_mem h _ (List.mem_of_getLast? hl)) (by decide)
  simp [dropFinalNewline, hlast]

theorem dropFinalNewline_endsLine (word : String) :
    dropFinalNewline (word ++ "\n").toList = word.toList := by
  simp [dropFinalNewline]

/-- **What may stand unquoted**: an identifier in full, and one with a line feed behind it. -/
theorem isIdentifier_iff : isIdentifier name ↔ isWord name ∨ EndsLine name := by
  rw [isIdentifier_eq]
  constructor
  · intro h
    rcases dropFinalNewline_cases name.toList with hsame | hmore
    · rw [hsame, String.ofList_toList] at h
      exact .inl h
    · refine .inr ⟨_, h, ?_⟩
      rw [← String.toList_inj, String.toList_append, String.toList_ofList]
      exact hmore
  · rintro (h | ⟨word, h, rfl⟩)
    · rwa [dropFinalNewline_of_isWord h, String.ofList_toList]
    · rwa [dropFinalNewline_endsLine, String.ofList_toList]

theorem EndsLine.not_isWord (h : EndsLine name) : ¬ isWord name := by
  obtain ⟨word, -, rfl⟩ := h
  intro hw
  exact absurd (isIdentifierChar_of_mem hw '\n' (by simp)) (by decide)

theorem endsLine_iff : EndsLine name ↔ isIdentifier name ∧ ¬ isWord name := by
  rw [isIdentifier_iff]
  exact ⟨fun h => ⟨.inr h, h.not_isWord⟩, fun h => h.1.resolve_left h.2⟩

instance : DecidablePred EndsLine := fun _ => decidable_of_iff _ endsLine_iff.symm

end Name

namespace Code

/-! ## Reading names -/

/-- Whether a character between two properties begins a key: white space and the marks of a comment
do not. -/
def beginsKey (c : Char) : Bool := !(c.isWhitespace || c == '/' || c == '*')

/-- Whether a character directly between the braces ends a property. -/
def endsProperty (c : Char) : Bool := c == ',' || c == '\x7d'

/-- The text of a literal or the longest identifier at the front, and what stands behind it. -/
def readName : List Char → Option (List Char × List Char)
  | [] => none
  | '"' :: cs => readQuoted cs
  | c :: cs =>
    if Name.isIdentifierStart c then
      some (c :: cs.takeWhile Name.isIdentifierChar, cs.dropWhile Name.isIdentifierChar)
    else none

/-- The name of a key at the front, if a colon stands behind it. -/
def readKey (cs : List Char) : Option String :=
  match readName cs with
  | some (name, behind) =>
    if (behind.dropWhile Char.isWhitespace).head? = some ':' then some (String.ofList name)
    else none
  | none => none

namespace Scanner

/-- Whether a key begins with a character; `fresh` says that none was read since the last comma. -/
def isKeyStart (fresh : Bool) (s : State) (c : Char) : Bool := fresh && (s.isTop && beginsKey c)

/-- The names of the keys up to the brace that closes the object literal. -/
def namesFrom (fresh : Bool) (s : State) : List Char → List String
  | [] => []
  | c :: cs =>
    if s.isTop && c == '\x7d' then []
    else
      (if isKeyStart fresh s c then (readKey (c :: cs)).toList else []) ++
      match step s c with
      | some t => namesFrom (s.isTop && c == ',' || fresh && !isKeyStart fresh s c) t cs
      | none => []

end Scanner

/-- The names that the keys of the first object literal in a text denote. -/
def propertyNames (text : String) : List String :=
  Scanner.namesFrom true Scanner.top (text.toList.dropWhile (· != '\x7b')).tail

namespace Scanner

variable {s t : State} {cs : List Char} {fresh : Bool}

/-- Between two properties, up to the next key. -/
theorem namesFrom_of_clearScan (rest : List Char) : ∀ {cs : List Char} {s : State},
    clearScan beginsKey s cs = some t → namesFrom true s (cs ++ rest) = namesFrom true t rest
  | [], s, h => by
    cases h
    rfl
  | c :: cs, s, h => by
    obtain ⟨hnot, u, hstep, h⟩ := clearScan_cons_iff.mp h
    -- the closing brace would begin a key
    have hclose : (s.isTop && c == '\x7d') = false := by
      rw [Bool.and_eq_false_iff] at hnot ⊢
      refine hnot.imp_right fun hc => beq_eq_false_iff_ne.mpr ?_
      rintro rfl
      exact absurd hc (by decide)
    rw [List.cons_append, namesFrom, hclose, isKeyStart, hnot, hstep]
    simp [namesFrom_of_clearScan rest h]

/-- Behind a key, up to the end of its property. -/
theorem namesFrom_after_of_clearScan (rest : List Char) : ∀ {cs : List Char} {s : State},
    clearScan endsProperty s cs = some t → namesFrom false s (cs ++ rest) = namesFrom false t rest
  | [], s, h => by
    cases h
    rfl
  | c :: cs, s, h => by
    obtain ⟨hnot, u, hstep, h⟩ := clearScan_cons_iff.mp h
    rw [endsProperty, Bool.and_or_distrib_left, Bool.or_eq_false_iff] at hnot
    rw [List.cons_append, namesFrom, hnot.1, hnot.2, isKeyStart, hstep]
    simp [namesFrom_after_of_clearScan rest h]

theorem namesFrom_start {c : Char} (hc : beginsKey c) (hb : c ≠ '\x7d') (h : step top c = some t)
    (cs : List Char) :
    namesFrom true top (c :: cs) = (readKey (c :: cs)).toList ++ namesFrom (c == ',') t cs := by
  have htop : top.isTop = true := rfl
  simp [namesFrom, isKeyStart, htop, hc, hb, h]

end Scanner

/-! ## Keys -/

section Keys

open Scanner (top namesFrom)

variable {name word : String} {c : Char}

theorem of_isIdentifierChar (h : Name.isIdentifierChar c) :
    Scanner.isMark c = false ∧ beginsKey c ∧ endsProperty c = false := by
  have hlt := toNat_lt_of_isWordChar (isWordChar_of_isIdentifierChar h)
  have := @Name.of_lt (fun c => !Name.isIdentifierChar c ||
    (!Scanner.isMark c && beginsKey c && !endsProperty c)) (by decide) c hlt
  simp_all

theorem readKey_quote (name : String) (rest : List Char) :
    readKey ((quote name).toList ++ ':' :: rest) = some name := by
  rw [quote, String.toList_ofList, List.cons_append, List.cons_append, List.append_assoc, readKey,
    readName, List.singleton_append, readQuoted_encode]
  simp

/-- A line feed behind an identifier is not part of the key. -/
theorem readKey_word (h : Name.isWord word) {blank : List Char} (hb : blank = [] ∨ blank = ['\n'])
    (rest : List Char) : readKey (word.toList ++ (blank ++ ':' :: rest)) = some word := by
  obtain ⟨c, cs, hword, hc, hcs⟩ := Name.isWord_iff.mp h
  have hquote : c ≠ '"' := by
    rintro rfl
    exact absurd hc (by decide)
  have htake : (blank ++ ':' :: rest).takeWhile Name.isIdentifierChar = [] := by
    rcases hb with rfl | rfl <;> rfl
  have hdrop : (blank ++ ':' :: rest).dropWhile Name.isIdentifierChar = blank ++ ':' :: rest := by
    rcases hb with rfl | rfl <;> rfl
  have hread : readName (c :: (cs ++ (blank ++ ':' :: rest))) =
      some (c :: cs, blank ++ ':' :: rest) := by
    rw [readName, if_pos hc, List.takeWhile_append_of_pos hcs, List.dropWhile_append_of_pos hcs,
      htake, hdrop, List.append_nil]
    exact hquote
  have hcolon : ((blank ++ ':' :: rest).dropWhile Char.isWhitespace).head? = some ':' := by
    rcases hb with rfl | rfl <;> rfl
  rw [hword, List.cons_append, readKey, hread]
  simp only [hcolon, if_true, ← hword, String.ofList_toList]

/-- The name that the key of a property denotes. -/
def denoted (name : String) : String :=
  if Name.isIdentifier name then String.ofList (Name.dropFinalNewline name.toList) else name

theorem denoted_endsLine (h : Name.isWord word) : denoted (word ++ "\n") = word := by
  rw [denoted, if_pos (Name.isIdentifier_iff.mpr (.inr ⟨word, h, rfl⟩)),
    Name.dropFinalNewline_endsLine, String.ofList_toList]

theorem denoted_of_not_endsLine (h : ¬ Name.EndsLine name) : denoted name = name := by
  unfold denoted
  split
  · rename_i hi
    rw [Name.dropFinalNewline_of_isWord ((Name.isIdentifier_iff.mp hi).resolve_right h),
      String.ofList_toList]
  · rfl

/-- **When a key denotes the name of its property.** -/
theorem denoted_eq_iff : denoted name = name ↔ ¬ Name.EndsLine name := by
  refine ⟨?_, denoted_of_not_endsLine⟩
  rintro h ⟨word, hw, rfl⟩
  rw [denoted_endsLine hw] at h
  have := congrArg String.length h
  simp at this

/-- **When keys denote distinct names**: no name is an identifier that stands beside itself with a
line feed behind. -/
theorem nodup_denoted_iff {names : List String} (h : names.Nodup) : (names.map denoted).Nodup ↔
    ∀ word ∈ names, Name.isWord word → word ++ "\n" ∉ names := by
  rw [List.nodup_map_iff_inj_on h]
  constructor
  · intro hinj word hm hw hline
    have heq := hinj _ hm _ hline
    rw [denoted_endsLine hw, denoted_of_not_endsLine fun he => he.not_isWord hw] at heq
    have := congrArg String.length (heq rfl)
    simp at this
  · intro hapart name hm other hm' heq
    -- where only one of the two ends with a line feed, the other is what stands before it
    by_cases hn : Name.EndsLine name
    · by_cases ho : Name.EndsLine other
      · obtain ⟨word, hw, rfl⟩ := hn
        obtain ⟨word', hw', rfl⟩ := ho
        rw [denoted_endsLine hw, denoted_endsLine hw'] at heq
        rw [heq]
      · obtain ⟨word, hw, rfl⟩ := hn
        rw [denoted_endsLine hw, denoted_of_not_endsLine ho] at heq
        subst heq
        exact absurd hm (hapart _ hm' hw)
    · by_cases ho : Name.EndsLine other
      · obtain ⟨word, hw, rfl⟩ := ho
        rw [denoted_endsLine hw, denoted_of_not_endsLine hn] at heq
        subst heq
        exact absurd hm' (hapart _ hm hw)
      · rwa [denoted_of_not_endsLine hn, denoted_of_not_endsLine ho] at heq

theorem length_le_length_encode (cs : List Char) : cs.length ≤ (Quoted.encode cs).length := by
  induction cs with
  | nil => exact Nat.le_refl 0
  | cons c cs ih =>
    have hchar : 1 ≤ (Quoted.encodeChar c).length := by
      rcases Quoted.encodeChar_spec c with ⟨d, hd, -⟩ | ⟨hc, -⟩
      · rw [hd]
        exact Nat.le_succ 1
      · rw [hc]
        exact Nat.le_refl 1
    rw [Quoted.encode_cons, List.length_append, List.length_cons]
    omega

theorem length_lt_length_quote (name : String) : name.length < (quote name).length := by
  have := length_le_length_encode name.toList
  simp only [quote, String.length_ofList, List.length_append, List.length_cons,
    String.length_toList] at this ⊢
  omega

theorem propertyKey_eq_iff : propertyKey name = name ↔ Name.isIdentifier name := by
  unfold propertyKey
  split
  · simp_all
  · rename_i h
    refine iff_of_false (fun heq => ?_) h
    -- a literal is longer than its text
    have := congrArg String.length heq
    have := length_lt_length_quote name
    omega

theorem text_key (name : String) : text (key name) = propertyKey name := by
  unfold key propertyKey
  split
  · exact text_singleton _
  · rw [text_singleton]
    simp [Piece.text, Wording.text, Stretch.text]

/-- An identifier in front of its colon, with or without a line feed between them. -/
theorem namesFrom_word (h : Name.isWord word) {blank : List Char}
    (hb : blank = [] ∨ blank = ['\n']) (rest : List Char) :
    namesFrom true top (word.toList ++ (blank ++ ':' :: rest)) =
      word :: namesFrom false top (':' :: rest) := by
  have hread := readKey_word h hb rest
  obtain ⟨c, cs, hword, -, -⟩ := Name.isWord_iff.mp h
  have hall := Name.isIdentifierChar_of_mem h
  rw [hword, List.forall_mem_cons] at hall
  obtain ⟨hmark, hbegins, hends⟩ := of_isIdentifierChar hall.1
  have hstep : Scanner.step top c = some top := Scanner.codeStep_of_not_mark hmark
  have hplain : ∀ d ∈ cs ++ blank, Scanner.isMark d = false ∧ endsProperty d = false := by
    rw [List.forall_mem_append]
    refine ⟨fun d hd => ?_, ?_⟩
    · obtain ⟨hd, -, hd'⟩ := of_isIdentifierChar (hall.2 d hd)
      exact ⟨hd, hd'⟩
    · rcases hb with rfl | rfl
      · exact nofun
      · exact List.forall_mem_singleton.mpr ⟨rfl, rfl⟩
  have hskip : Scanner.clearScan endsProperty top (cs ++ blank) = some top :=
    Scanner.clearScan_of_not_mark (fun d hd => (hplain d hd).1) fun d hd => (hplain d hd).2
  rw [endsProperty, Bool.or_eq_false_iff, beq_eq_false_iff_ne, beq_eq_false_iff_ne] at hends
  rw [hword, List.cons_append] at hread ⊢
  rw [Scanner.namesFrom_start hbegins hends.2 hstep, hread, beq_eq_false_iff_ne.mpr hends.1,
    ← List.append_assoc, Scanner.namesFrom_after_of_clearScan _ hskip]
  rfl

/-- A literal in front of its colon. -/
theorem namesFrom_quote (name : String) (rest : List Char) :
    namesFrom true top ((quote name).toList ++ ':' :: rest) =
      name :: namesFrom false top (':' :: rest) := by
  have hread := readKey_quote name rest
  have hskip : Scanner.clearScan endsProperty ⟨.string, ['\x7d']⟩
      (Quoted.encode name.toList ++ ['"']) = some top := Scanner.clearScan_encode _ _
  have hstep : Scanner.step top '"' = some ⟨.string, ['\x7d']⟩ := rfl
  have hcomma : ('"' == ',') = false := rfl
  rw [quote, String.toList_ofList, List.cons_append, List.cons_append] at hread ⊢
  rw [Scanner.namesFrom_start rfl (by decide) hstep, hread, hcomma,
    Scanner.namesFrom_after_of_clearScan _ hskip]
  rfl

/-- **A key** and its colon are read as the name that the key denotes. -/
theorem namesFrom_key (name : String) (rest : List Char) :
    namesFrom true top ((text (key name)).toList ++ ':' :: rest) =
      denoted name :: namesFrom false top (':' :: rest) := by
  rw [text_key, propertyKey, denoted]
  split
  · rename_i h
    rw [Name.isIdentifier_eq] at h
    rcases Name.dropFinalNewline_cases name.toList with hsame | hmore
    · rw [hsame, String.ofList_toList] at h ⊢
      exact namesFrom_word h (.inl rfl) rest
    · have hread := namesFrom_word h (.inr rfl) rest
      rwa [String.toList_ofList, ← List.append_assoc, ← hmore] at hread
  · exact namesFrom_quote name rest

/-! ## Object literals -/

variable {value : Code} {lines : List Code} {names : List String}

/-- **The line of a property**: a key, a colon and a value. -/
theorem reads_property (depth : Nat) (name : String) (hv : Clear endsProperty value) :
    Reads (namesFrom true top)
      ((indentation depth : Code) ++ key name ++ ": " ++ value ++ ",") [denoted name] := by
  intro rest
  have htext : (text ((indentation depth : Code) ++ key name ++ ": " ++ value ++ ",")).toList ++
      rest = (indentation depth).toList ++
        ((text (key name)).toList ++ ':' :: ' ' :: ((text value).toList ++ ',' :: rest)) := by
    simp only [text_append, text_singleton, Piece.text, String.toList_append, List.append_assoc]
    rfl
  have hvalue : Scanner.clearScan endsProperty top ([':', ' '] ++ (text value).toList) = some top :=
    (Scanner.clearScan_append rfl).trans hv
  have hrest : namesFrom false top (':' :: ' ' :: ((text value).toList ++ ',' :: rest)) =
      namesFrom false top (',' :: rest) :=
    Scanner.namesFrom_after_of_clearScan (',' :: rest) hvalue
  have hindent : Scanner.clearScan beginsKey top (indentation depth).toList = some top :=
    Scanner.clearScan_indentation rfl _ depth
  rw [htext, Scanner.namesFrom_of_clearScan _ hindent, namesFrom_key, hrest]
  rfl

theorem reads_comment {s indent : String} (hs : isBlank s = false)
    (hi : ∀ c ∈ indent.toList, c = ' ') : Reads (namesFrom true top) [.comment s indent] [] := by
  intro rest
  rw [text_singleton]
  exact Scanner.namesFrom_of_clearScan rest (Scanner.clearScan_comment rfl rfl rfl hs hi)

/-- A field with the key of a name, whose value ends where its code does. -/
structure Field.Named (name : String) (f : Field) : Prop where
  key : f.key = Code.key name
  value : Clear endsProperty f.value
  description : f.description.isTextOrNull

theorem Field.Named.linesRead {f : Field} (h : f.Named name) (depth : Nat) :
    ∃ lines, f.lines (indentation depth) = .ok lines ∧
      LinesRead (namesFrom true top) lines [denoted name] := by
  have hline := (reads_property depth name h.value).linesRead
  rw [← h.key] at hline
  unfold Field.lines
  rcases comment_cases h.description (indentation depth) with hdoc | ⟨s, hs, hdoc⟩
  · exact ⟨_, by rw [hdoc]; rfl, hline⟩
  · have hcomment := reads_comment hs (indentation_blank depth)
    exact ⟨_, by rw [hdoc]; rfl, hcomment.linesRead.append hline⟩

theorem lines_of_named {fields : List Field} (h : List.Forall₂ Field.Named names fields)
    (depth : Nat) : ∃ lines, fields.mapM (Field.lines (indentation depth)) = .ok lines ∧
      LinesRead (namesFrom true top) lines.flatten (names.map denoted) := by
  induction h with
  | nil => exact ⟨[], rfl, linesRead_nil⟩
  | cons h _ ih =>
    obtain ⟨own, hown, hread⟩ := h.linesRead depth
    obtain ⟨lines, hlines, hread'⟩ := ih
    exact ⟨own :: lines, by rw [List.mapM_cons, hown, hlines]; rfl, hread.append hread'⟩

/-- **The names between braces** are those of the lines, whatever stands before and behind. -/
theorem propertyNames_braces {before : String} (hb : ∀ c ∈ before.toList, c ≠ '\x7b')
    (h : LinesRead (namesFrom true top) lines names) (depth : Nat) (behind : String) :
    propertyNames (before ++ text (braces lines depth) ++ behind) = names := by
  have hdrop : ∀ inner,
      ((before.toList ++ '\x7b' :: inner).dropWhile (· != '\x7b')).tail = inner := by
    intro inner
    rw [List.dropWhile_append_of_pos fun c hc => bne_iff_ne.mpr (hb c hc),
      List.dropWhile_cons_of_neg]
    · rfl
    · decide
  unfold braces
  split
  · rename_i hempty
    obtain rfl := List.isEmpty_iff.mp hempty
    obtain ⟨own, hown, rfl⟩ := h
    cases hown
    rw [propertyNames, text_singleton, Piece.text, String.toList_append, String.toList_append,
      List.append_assoc]
    exact congrArg (namesFrom true top) (hdrop ('\x7d' :: behind.toList))
  · have hbreak : Reads (namesFrom true top) [.plain "\n"] [] := fun rest =>
      Scanner.namesFrom_of_clearScan rest rfl
    have hindent : Reads (namesFrom true top) [.plain (indentation depth)] [] := fun rest => by
      rw [text_singleton]
      exact Scanner.namesFrom_of_clearScan rest (Scanner.clearScan_indentation rfl _ depth)
    have hinner := (hbreak.append (h.join hbreak)).append (hbreak.append hindent)
    have hend : namesFrom true top ('\x7d' :: behind.toList) = [] := rfl
    have htext : (before ++ text ([.plain "\x7b\n"] ++ join "\n" lines ++
        [.plain ("\n" ++ indentation depth ++ "\x7d")]) ++ behind).toList =
        before.toList ++ '\x7b' :: ((text ([.plain "\n"] ++ join "\n" lines ++
          ([.plain "\n"] ++ [.plain (indentation depth)]))).toList ++ '\x7d' :: behind.toList) := by
      simp only [text_append, text_singleton, Piece.text, String.toList_append, List.append_assoc]
      rfl
    rw [propertyNames, htext, hdrop, hinner, hend]
    simp

/-- **The names in an object literal** are those that the keys of its fields denote. -/
theorem propertyNames_object {fields : List Field} (h : List.Forall₂ Field.Named names fields)
    (depth : Nat) : ∃ code, object fields depth = .ok code ∧
      ∀ before behind : String, (∀ c ∈ before.toList, c ≠ '\x7b') →
        propertyNames (before ++ text code ++ behind) = names.map denoted := by
  obtain ⟨lines, hlines, hread⟩ := lines_of_named h (depth + 1)
  exact ⟨braces lines.flatten depth, by rw [object, hlines]; rfl, fun before behind hb =>
    propertyNames_braces hb hread depth behind⟩

end Keys

end Code

end SchemaForge
