import SchemaForge.Schema.Entry
import SchemaForge.Text.Basic

/-!
# Revisions

What a caller does to each source on its way: filters before its module is written, headers after.

A filter rejects entries by the start or end of their name or by their category. An entry that needs
a rejected one cannot stay either, since its code would name a constant that is not there. A header
is a caller's text that is put before a module as comments; lines that already look like comments
are kept.

* `Filter.selects`: whether a filter alone keeps an entry.
* `Filter.apply`: the entries that stay, with a warning for each one that is dropped for what it
  needs.
* `Header.prepend`: a module with a header before it.
* `Plan.reviseEntries`, `Plan.reviseContent`: all revisions of one kind, in order.
-/

namespace SchemaForge

/-! ## Filters -/

/-- What a filter rejects and requires. An empty text rejects and requires nothing. -/
structure Filter where
  excludeStart : Option String := none
  excludeEnd : Option String := none
  includeStart : Option String := none
  includeEnd : Option String := none
  excludeCategories : List (Option String) := []
  deriving Repr, Inhabited

namespace Filter

/-- Whether a filter's text is given and a name passes the test with it. -/
def given (text : Option String) (test : List Char → Bool) : Bool :=
  match text with
  | some s => s != "" && test s.toList
  | none => false

/-- Whether the filter alone keeps an entry. -/
def selects (f : Filter) (entry : Entry) : Bool :=
  let name := entry.name.toList
  !(f.excludeCategories.contains entry.category
    || given f.excludeStart (·.isPrefixOf name)
    || given f.excludeEnd (·.isSuffixOf name)
    || given f.includeStart (!·.isPrefixOf name)
    || given f.includeEnd (!·.isSuffixOf name))

/-- The names among `removed` that an entry needs, in the order of their code points. -/
def missing (removed : List String) (entry : Entry) : List String :=
  (entry.dependencies.filter removed.contains).mergeSort

/-- Whether an entry is still there but needs one that is not. -/
def falls (removed : List String) (entry : Entry) : Bool :=
  !removed.contains entry.name && !(missing removed entry).isEmpty

/-- What is said of an entry that is dropped for what it needs. -/
def dropMessage (removed : List String) (entry : Entry) : String :=
  "Dropped schema \"" ++ entry.name ++ "\": it depends on filtered schema(s) "
    ++ ", ".intercalate ((missing removed entry).map fun name => "\"" ++ name ++ "\"")

/-- Drops in rounds what needs a dropped entry, until a round drops nothing. Every round but the
last drops an entry, so there are no more rounds than entries and one. -/
def cascade (entries : List Entry) : Nat → List String → List String → List String × List String
  | 0, removed, warnings => (removed, warnings)
  | rounds + 1, removed, warnings =>
    let falling := entries.filter (falls removed)
    if falling.isEmpty then (removed, warnings)
    else
      cascade entries rounds (removed ++ falling.map (·.name))
        (warnings ++ falling.map (dropMessage removed))

/-- The entries that stay. -/
def apply (f : Filter) (r : Result) : Result :=
  let rejected := (r.entries.filter (!f.selects ·)).map (·.name)
  let (removed, warnings) := cascade r.entries (r.entries.length + 1) rejected r.warnings
  { entries := r.entries.filter (!removed.contains ·.name), warnings }

end Filter

/-! ## Headers -/

namespace Header

/-- Whether a line looks like a comment or the inner line of one. -/
def looksLikeComment (line : List Char) : Bool :=
  match Text.stripLeft line with
  | '/' :: '/' :: _ | '/' :: '*' :: _ | '*' :: _ => true
  | _ => false

/-- A line of a header: kept when it is blank or looks like a comment, a comment otherwise. -/
def commentLine (line : List Char) : List Char :=
  if looksLikeComment line || (Text.strip line).isEmpty then line else '/' :: '/' :: ' ' :: line

/-- The text without line feeds at its end. -/
def trimNewlines (cs : List Char) : List Char := (cs.reverse.dropWhile (· == '\n')).reverse

/-- The lines that a header puts before a module. -/
def lines (header : String) : List (List Char) :=
  (Text.lines (trimNewlines header.toList)).map commentLine

/-- A module with a header before it. -/
def prepend (header content : String) : String :=
  String.ofList ("\n".toList.intercalate (lines header)) ++ "\n\n" ++ content

end Header

/-! ## Plans -/

/-- The revisions of a caller, each kind in its order. -/
structure Plan where
  filters : List Filter := []
  headers : List String := []
  deriving Repr, Inhabited

namespace Plan

/-- A result after all filters. -/
def reviseEntries (p : Plan) (r : Result) : Result := p.filters.foldl (fun r f => f.apply r) r

/-- A module after all headers. -/
def reviseContent (p : Plan) (content : String) : String :=
  p.headers.foldl (fun content header => Header.prepend header content) content

end Plan

end SchemaForge
