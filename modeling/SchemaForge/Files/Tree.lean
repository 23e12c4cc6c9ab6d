import SchemaForge.Files.Pattern

/-!
# A tree of files

The files below the working directory, with their texts. A directory is there when a file is below
it; the working directory always is.

* `Tree.read?`: the text of a file, with every line end as a line feed.
* `Tree.find`: the files that a pattern matches below a directory.
* `Tree.write?`: the tree with a file written, where one can be.
-/

namespace SchemaForge.Files

/-- The names from the working directory down to a file or directory. -/
abbrev Place := List String

/-- The files below the working directory. -/
structure Tree where
  files : List (Place × String) := []
  deriving Repr, Inhabited

namespace Tree

/-- The text of a file as it is stored. -/
def stored? (t : Tree) (place : Place) : Option String := t.files.lookup place

/-- Whether a directory is there. -/
def hasDirectory (t : Tree) (place : Place) : Bool :=
  place.isEmpty || t.files.any fun file => place.isPrefixOf file.1 && place.length < file.1.length

/-! ## Reading -/

/-- The place that parts lead to from a place, each step but the last through a directory. Nothing
is found above the working directory. -/
def walk (t : Tree) (place : Place) : List String → Option Place
  | [] => some place
  | part :: rest =>
    if !t.hasDirectory place then none
    else if part == ".." then if place.isEmpty then none else walk t place.dropLast rest
    else walk t (place ++ [part]) rest

/-- The place of a path, whether or not something is there. -/
def place? (t : Tree) (p : Path) : Option Place :=
  if p.isAbsolute then none else t.walk [] p.parts

/-- Whether a path leads to a file. -/
def isFile (t : Tree) (p : Path) : Bool := ((t.place? p).bind t.stored?).isSome

/-- Whether a path leads to a directory. -/
def isDirectory (t : Tree) (p : Path) : Bool := (t.place? p).any t.hasDirectory

/-- A text with every line end as a line feed. -/
def withLineFeeds : List Char → List Char
  | '\r' :: '\n' :: rest => '\n' :: withLineFeeds rest
  | '\r' :: rest => '\n' :: withLineFeeds rest
  | c :: rest => c :: withLineFeeds rest
  | [] => []

/-- The text of a file, with every line end as a line feed. -/
def read? (t : Tree) (p : Path) : Option String :=
  ((t.place? p).bind t.stored?).map fun text => String.ofList (withLineFeeds text.toList)

/-! ## Searching -/

/-- The places below a directory, as the names from there down to the files. -/
def below (t : Tree) (p : Path) : List Place :=
  match t.place? p with
  | none => []
  | some place => t.files.filterMap fun file =>
    if place.isPrefixOf file.1 then some (file.1.drop place.length) else none

/-- The names in a directory, each once. -/
def names (t : Tree) (p : Path) : List String := ((t.below p).filterMap List.head?).eraseDups

/-- A directory and all directories below it, each once. -/
def directories (t : Tree) (p : Path) : List Path :=
  (p :: (t.below p).flatMap fun names =>
    (List.range names.length).map fun n => { p with parts := p.parts ++ names.take n }).eraseDups

/-- The paths that a pattern matches from a path on. -/
def search (t : Tree) : Pattern → Path → List Path
  | [], p => [p]
  | part :: rest, p =>
    let leads (q : Path) : Bool := t.isDirectory q || (rest.isEmpty && t.isFile q)
    match part with
    | .anyDepth => (t.directories p).flatMap (search t rest)
    | .directory => if t.isDirectory p then search t rest p else []
    | .name name => if leads (p.child name) then search t rest (p.child name) else []
    | .matching pattern => (t.names p).flatMap fun name =>
      if pattern.accepts name.toList && leads (p.child name) then search t rest (p.child name)
      else []

/-- Paths in order, each once. -/
def inOrder (paths : List Path) : List Path := paths.eraseDups.mergeSort Path.precedes

/-- The files that a pattern matches below a directory. -/
def find (t : Tree) (base : Path) (pattern : Pattern) : List Path :=
  if t.isDirectory base then (t.search pattern base).filter t.isFile else []

/-- Everything below a directory, in order. -/
def everything (t : Tree) (p : Path) : List Path :=
  inOrder (t.search [.anyDepth, .matching [.anyText]] p)

/-! ## Writing -/

/-- Where a written file goes. -/
inductive Target where
  | inside (place : Place)
  /-- Above or beside the working directory. -/
  | outside
  /-- A file stands where a directory is needed, or a directory where the file would be. -/
  | blocked
  deriving DecidableEq, Repr, Inhabited

/-- The places that parts lead through from a place, and the one where they end, unless they leave
the working directory. -/
def route (place : Place) : List String → List Place × Option Place
  | [] => ([], some place)
  | part :: rest =>
    if part == ".." && place.isEmpty then ([place], none)
    else
      let (passed, goal) := route (if part == ".." then place.dropLast else place ++ [part]) rest
      (place :: passed, goal)

/-- Where a path leads. Directories that are missing are made on the way, so every place that it
leads through is one. -/
def target (t : Tree) (p : Path) : Target :=
  if p.isAbsolute then .outside
  else
    let (passed, goal) := route [] p.parts
    if passed.any fun place => (t.stored? place).isSome then .blocked
    else
      match goal with
      | none => .outside
      | some place =>
        if t.hasDirectory place || passed.contains place then .blocked else .inside place

/-- The tree with a file at a place. -/
def insert (t : Tree) (place : Place) (text : String) : Tree :=
  { files := t.files.filter (·.1 != place) ++ [(place, text)] }

/-- The tree with a file written, where one can be. What is written outside the working directory
leaves the tree as it is. -/
def write? (t : Tree) (p : Path) (text : String) : Option Tree :=
  match t.target p with
  | .outside => some t
  | .blocked => none
  | .inside place => some (t.insert place text)

end Tree

end SchemaForge.Files
