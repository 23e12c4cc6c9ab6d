import SchemaForge.Text.Basic

/-!
# Paths

A path is a root, which a relative path lacks, and the parts below it. Empty parts and parts that
are a single dot say nothing and are left out; two dots stay, since they mean a step up only where
the part before them is a directory.

* `Path.ofText`, `Path.text`: a path and how it is written.
* `Path.join`: a path that starts from another one.
* `Path.suffix`: the ending of the last part, with its dot.
-/

namespace SchemaForge.Files

/-- A path. -/
structure Path where
  /-- The slashes of an absolute path; empty for a relative one. -/
  root : String := ""
  parts : List String := []
  deriving DecidableEq, Repr, Inhabited

namespace Path

/-- The root that a number of slashes at the start means: exactly two stay two. -/
def rootOf (slashes : Nat) : String :=
  if slashes == 0 then "" else if slashes == 2 then "//" else "/"

/-- Whether a part says where to go. -/
def isStep (part : String) : Bool := part != "" && part != "."

/-- The path that a text writes. -/
def ofText (text : String) : Path :=
  let cs := text.toList
  { root := rootOf (cs.takeWhile (· == '/')).length
    parts := ((Text.split '/' cs).map String.ofList).filter isStep }

/-- The working directory. -/
def here : Path := {}

/-- Whether a path starts at a root. -/
def isAbsolute (p : Path) : Bool := p.root != ""

/-- How a path is written; the path without parts is a dot. -/
def text (p : Path) : String :=
  if p.parts.isEmpty && !p.isAbsolute then "." else p.root ++ "/".intercalate p.parts

/-- A path with one more part. -/
def child (p : Path) (part : String) : Path := { p with parts := p.parts ++ [part] }

/-- A path that starts from another one, unless it is absolute. -/
def join (base p : Path) : Path :=
  if p.isAbsolute then p else { base with parts := base.parts ++ p.parts }

/-- The path without its last part. -/
def parent (p : Path) : Path := { p with parts := p.parts.dropLast }

/-- The last part, empty if there is none. -/
def name (p : Path) : String := p.parts.getLast?.getD ""

/-- The ending of a name from its last dot on. A dot at the start or at the end begins no ending. -/
def suffixOf (name : List Char) : List Char :=
  let ending := (name.reverse.takeWhile (· != '.')).reverse
  let before := name.length - ending.length
  if ending.isEmpty || before ≤ 1 then [] else '.' :: ending

/-- The ending of the last part. -/
def suffix (p : Path) : String := String.ofList (suffixOf p.name.toList)

/-- The order of paths by their parts. -/
def precedes (p q : Path) : Bool := !decide (q.parts < p.parts)

end Path

end SchemaForge.Files
