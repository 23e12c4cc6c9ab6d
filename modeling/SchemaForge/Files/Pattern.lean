import SchemaForge.Files.Path
import SchemaForge.Logged

/-!
# Patterns for paths of files

A part of a pattern is a name, a pattern for names, or `**` for a directory at any depth. In a
pattern for names `*` stands for any text, `?` for one character, and brackets for one of several
characters.

* `Pattern.ofText`: the parts of a pattern, or a fault if it is none.
* `NamePattern.accepts`: whether a name is in the language of a pattern for names.
-/

namespace SchemaForge.Files

/-! ## Names -/

/-- A piece of a pattern for names. -/
inductive NamePiece where
  | anyText
  | anyChar
  | char (c : Char)
  /-- A character in one of the ranges, or in none of them. -/
  | oneOf (negated : Bool) (ranges : List (Char × Char))
  deriving DecidableEq, Repr, Inhabited

/-- Whether one character passes a piece. -/
def NamePiece.allows (piece : NamePiece) (c : Char) : Bool :=
  match piece with
  | .anyText | .anyChar => true
  | .char d => c == d
  | .oneOf negated ranges => (ranges.any fun (first, last) => first ≤ c && c ≤ last) != negated

/-- A pattern for names. -/
abbrev NamePattern := List NamePiece

namespace NamePattern

/-- The ranges between brackets. -/
def ranges : List Char → List (Char × Char)
  | first :: '-' :: last :: rest => (first, last) :: ranges rest
  | c :: rest => (c, c) :: ranges rest
  | [] => []

/-- The piece after an opening bracket and what follows the closing one, if there is one. A closing
bracket in the first place stands for itself. -/
def bracket? (cs : List Char) : Option (NamePiece × List Char) :=
  let (negated, body) := match cs with
    | '!' :: rest => (true, rest)
    | _ => (false, cs)
  let (first, body) := match body with
    | ']' :: rest => ([']'], rest)
    | _ => ([], body)
  match body.dropWhile (· != ']') with
  | [] => none
  | _ :: rest => some (.oneOf negated (ranges (first ++ body.takeWhile (· != ']'))), rest)

/-- The pieces of a pattern; each takes at least one character, so as many steps as there are
characters are enough. A bracket that is never closed stands for itself. -/
def pieces : Nat → List Char → NamePattern
  | 0, _ => []
  | _, [] => []
  | steps + 1, '*' :: rest => .anyText :: pieces steps rest
  | steps + 1, '?' :: rest => .anyChar :: pieces steps rest
  | steps + 1, '[' :: rest =>
    match bracket? rest with
    | some (piece, rest) => piece :: pieces steps rest
    | none => .char '[' :: pieces steps rest
  | steps + 1, c :: rest => .char c :: pieces steps rest

/-- The pieces of a pattern. -/
def ofText (text : String) : NamePattern := pieces text.length text.toList

/-- Whether a text is in the language of a pattern. -/
def accepts : NamePattern → List Char → Bool
  | [], cs => cs.isEmpty
  | .anyText :: ps, cs => Text.dropSome (fun _ => true) (accepts ps) cs
  | p :: ps, cs =>
    match cs with
    | c :: cs => p.allows c && accepts ps cs
    | [] => false

end NamePattern

/-! ## Paths -/

/-- A part of a pattern for paths. -/
inductive PatternPart where
  /-- The directory itself and every one below it. -/
  | anyDepth
  | name (name : String)
  | matching (p : NamePattern)
  /-- What stands here must be a directory. -/
  | directory
  deriving DecidableEq, Repr, Inhabited

/-- A pattern for paths. -/
abbrev Pattern := List PatternPart

namespace Pattern

/-- The part that a text writes. Two stars may only be a whole part. -/
def part (text : String) : Except Fault PatternPart :=
  let cs := text.toList
  if text == "**" then .ok .anyDepth
  else if Text.occursIn ['*', '*'] cs then .error .badValue
  else if cs.any fun c => c == '*' || c == '?' || c == '[' then .ok (.matching (.ofText text))
  else .ok (.name text)

/-- The parts of a pattern, which must have one. A slash at the end asks for a directory. -/
def ofText (text : String) : Except Fault Pattern := do
  let parts ← (Path.ofText text).parts.mapM part
  if parts.isEmpty then .error .badValue
  else if text.toList.getLast? == some '/' then return parts ++ [.directory]
  else return parts

end Pattern

end SchemaForge.Files
