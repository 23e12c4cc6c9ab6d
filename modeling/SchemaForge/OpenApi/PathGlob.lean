import SchemaForge.Text.Basic

/-!
# Path globs

A pattern for paths: `**` stands for any text without a line feed, `*` for any text without a slash,
`?` for one character other than a slash, and every other character for itself.

* `PathGlob.ofText`: the pieces of a pattern, `**` before `*`.
* `PathGlob.accepts`: whether a path, or the path without a line feed at its end, is in the language
  of a pattern.
* `PathGlob.keeps`: whether a path passes a list of patterns to include and one to exclude.
-/

namespace SchemaForge.OpenApi

/-- A piece of a pattern. -/
inductive GlobPiece where
  | anyDepth
  | anySegment
  | oneChar
  | char (c : Char)
  deriving DecidableEq, Repr, Inhabited

/-- A pattern for paths. -/
abbrev PathGlob := List GlobPiece

namespace PathGlob

/-- The pieces of a pattern. -/
def ofChars : List Char → PathGlob
  | '*' :: '*' :: rest => .anyDepth :: ofChars rest
  | '*' :: rest => .anySegment :: ofChars rest
  | '?' :: rest => .oneChar :: ofChars rest
  | c :: rest => .char c :: ofChars rest
  | [] => []

/-- The pieces of a pattern. -/
def ofText (pattern : String) : PathGlob := ofChars pattern.toList

/-- Whether a whole text is in the language of a pattern. -/
def spells : PathGlob → List Char → Bool
  | [], cs => cs.isEmpty
  | .anyDepth :: ps, cs => Text.dropSome (· != '\n') (spells ps) cs
  | .anySegment :: ps, cs => Text.dropSome (· != '/') (spells ps) cs
  | .oneChar :: ps, cs =>
    match cs with
    | c :: cs => c != '/' && spells ps cs
    | [] => false
  | .char d :: ps, cs =>
    match cs with
    | c :: cs => c == d && spells ps cs
    | [] => false

/-- Whether a path is accepted, with or without a line feed at its end. -/
def accepts (glob : PathGlob) (path : String) : Bool :=
  let cs := path.toList
  spells glob cs || (cs.getLast? == some '\n' && spells glob cs.dropLast)

/-- Whether a path passes: it is accepted by some pattern to include, if there are any, and by no
pattern to exclude. -/
def keeps (included excluded : List PathGlob) (path : String) : Bool :=
  (included.isEmpty || included.any (·.accepts path)) && !excluded.any (·.accepts path)

/-- The paths that pass, in order. -/
def keep (included excluded : List String) (paths : List String) : List String :=
  paths.filter (keeps (included.map ofText) (excluded.map ofText))

end PathGlob

end SchemaForge.OpenApi
