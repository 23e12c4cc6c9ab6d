import SchemaForge.Config.Basic
import SchemaForge.Config.Checked
import SchemaForge.Files.Tree
import SchemaForge.Json.Reader
import SchemaForge.Logged
import SchemaForge.Yaml.Content

/-!
# Reading configurations

A configuration is written in JSON or YAML, by the suffix of its file. Every part of it is checked,
and no part may hold a key that means nothing there.

* `Config.ofMapping`: the configuration that a mapping writes, or all issues with it.
* `Config.load`: the configuration in a file.
* `Failure.message`: why a file holds no configuration.
-/

namespace SchemaForge.Config

/-! ## Parts -/

/-- A text. -/
def text : Value → Checked String
  | .atom (.str s) => .sound s
  | _ => .fail .notText

/-- The truth values by their spellings. -/
def truthWords : List (String × Bool) := [
  ("true", true), ("yes", true), ("on", true), ("t", true), ("y", true), ("1", true),
  ("false", false), ("no", false), ("off", false), ("f", false), ("n", false), ("0", false)]

/-- The truth value that a number means. -/
def truthOfNumber (n : Int) : Checked Bool :=
  if n == 1 then .sound true else if n == 0 then .sound false else .fail .unclearTruth

/-- A truth value, which may be spelt as a word in any letter case or as a number. -/
def truth : Value → Checked Bool
  | .atom (.bool b) => .sound b
  | .atom (.int n) => truthOfNumber n
  | .atom (.float d) =>
    match d.toInt? with
    | some n => truthOfNumber n
    | none => .fail .notTruth
  | .atom (.str s) =>
    match truthWords.lookup (s.map Char.toLower) with
    | some b => .sound b
    | none => .fail .unclearTruth
  | _ => .fail .notTruth

/-- A list of texts. -/
def texts : Value → Checked (List String)
  | .list items => .all (items.zipIdx.map fun (v, i) => (text v).under (.index i))
  | _ => .fail .notList

/-- The key of an entry, which must be a text. -/
def entryKey : Atom → Checked String
  | .str s => .sound s
  | key => .under (.key key) (.under .keyItself (.fail .notText))

/-- A mapping from texts to texts. -/
def textMap : Value → Checked (List (String × String))
  | .map entries => .all (entries.map fun (key, v) =>
      Prod.mk <$> entryKey key <*> (text v).under (.key key))
  | _ => .fail .notMapping

/-- Something that may be null. -/
def nullable {α : Type} (read : Value → Checked α) : Value → Checked (Option α)
  | .atom .null => .sound none
  | v => some <$> read v

/-! ## Members of a mapping -/

/-- A member that must be there. -/
def required {α : Type} (m : Mapping) (key : String) (read : Value → Checked α) : Checked α :=
  .under (.key (.str key)) <|
    match m.get? key with
    | some v => read v
    | none => .fail .missing

/-- A member that has a default. -/
def optional {α : Type} (m : Mapping) (key : String) (default : α) (read : Value → Checked α) :
    Checked α :=
  match m.get? key with
  | some v => (read v).under (.key (.str key))
  | none => .sound default

/-- Whether a key means something. -/
def keyIssue? (known : List String) : Atom → Option Issue
  | .str s =>
    if known.contains s then none else some { path := [.key (.str s)], defect := .unknownKey }
  | key => some { path := [.key key], defect := .keyNotText }

/-- No key but the known ones. -/
def only (known : List String) (m : Mapping) : Checked Unit :=
  match m.filterMap fun entry => keyIssue? known entry.1 with
  | [] => .sound ()
  | issues => .faulty issues

/-- A value that keeps a rule. -/
def obeying {α : Type} (rule : α → Option Rule) (a : α) : Checked α :=
  match rule a with
  | none => .sound a
  | some r => .fail (.broken r)

/-! ## Sources -/

/-- The characters of the names of sources. -/
def isNameChar (c : Char) : Bool := c.isAlphanum || c == '_' || c == '-'

/-- Whether a text is the name of a source; a line feed may follow it. -/
def isSourceName (s : String) : Bool :=
  let cs := s.toList
  let name := if cs.getLast? == some '\n' then cs.dropLast else cs
  !name.isEmpty && name.all isNameChar

/-- The name of a source. -/
def sourceName (v : Value) : Checked String :=
  (text v).andThen (obeying fun s => if isSourceName s then none else some .sourceName)

/-- A library by its name. -/
def library (v : Value) : Checked Library :=
  (text v).andThen fun name =>
    match Library.ofName? name with
    | some lib => .sound lib
    | none => .fail (.broken (.knownLibrary name))

/-- What sources of every kind say. -/
def settings (m : Mapping) : Checked Settings :=
  Settings.mk <$> required m "name" sourceName
    <*> optional m "validator" .zod library
    <*> optional m "scalars" [] textMap
    <*> optional m "headers" [] textMap
    <*> optional m "on_demand" [] texts
    <*> optional m "standard_schema" false truth

/-- The keys that sources of every kind may have. -/
def settingKeys : List String :=
  ["name", "validator", "scalars", "headers", "on_demand", "standard_schema", "type"]

/-- Where a type system is described. -/
def location : Value → Checked Location
  | .map m =>
    (Location.mk <$> optional m "file" none (nullable text)
        <*> optional m "url" none (nullable text)
      <* only ["file", "url"] m).andThen
      (obeying fun l => if l.isSingle then none else some .oneLocation)
  | _ => .fail .notLocation

/-- The key of a location: it has a short and a long form, and the short one comes first. -/
def locationKey (m : Mapping) : String :=
  if !m.has "schema" && m.has "schema_location" then "schema_location" else "schema"

/-- A source with a type system and operations. -/
def graphql (m : Mapping) : Checked Source :=
  (fun settings location documents => { settings, kind := .graphql location documents })
    <$> settings m
    <*> required m (locationKey m) location
    <*> optional m "documents" [] texts
    <* only (settingKeys ++ [locationKey m, "documents"]) m

/-- A source with a service description. -/
def openapi (m : Mapping) : Checked Source :=
  (fun settings spec included excluded => { settings, kind := .openapi spec included excluded })
    <$> settings m
    <*> required m "spec" text
    <*> optional m "include" [] texts
    <*> optional m "exclude" [] texts
    <* only (settingKeys ++ ["spec", "include", "exclude"]) m

/-- A source of either kind, by its type. -/
def source : Value → Checked Source
  | .map m =>
    match Mapping.get? m "type" with
    | none => .fail .kindMissing
    | some (.atom (.str "graphql")) => (graphql m).under (.key (.str "graphql"))
    | some (.atom (.str "openapi")) => (openapi m).under (.key (.str "openapi"))
    | some _ => .fail .kindUnknown
  | _ => .fail .notSource

/-- A list of sources. -/
def sourceList : Value → Checked (List Source)
  | .list items => .all (items.zipIdx.map fun (v, i) => (source v).under (.index i))
  | _ => .fail .notList

/-! ## Configurations -/

/-- The first name that two sources share. -/
def repeatedName? (seen : List String) : List Source → Option String
  | [] => none
  | s :: rest =>
    if seen.contains s.settings.name then some s.settings.name
    else repeatedName? (s.settings.name :: seen) rest

/-- The rules for a list of sources: there is one, and each has a name of its own. -/
def sourcesRule (ss : List Source) : Option Rule :=
  if ss.isEmpty then some .someSource else (repeatedName? [] ss).map .distinctSources

/-- The configuration that a mapping in a directory writes. The key `base_dir` is passed over: the
directory is that of the file. -/
def ofMapping (base : Files.Path) (m : Mapping) : Checked Config :=
  ((fun output sources => { output, sources, base }) <$> optional m "output" "src/generated" text
    <*> required m "sources" sourceList
    <* only ["output", "sources", "base_dir"] m).andThen
    (obeying fun c => sourcesRule c.sources)

/-! ## Files -/

/-- Why a file holds no configuration. -/
inductive Failure where
  | unreadable (path : Files.Path)
  | unparsable (path : Files.Path) (problem : String)
  | notMapping (path : Files.Path)
  | invalid (path : Files.Path) (issues : List Issue)
  | fault (f : Fault)
  deriving Repr, Inhabited

/-- The value in a configuration's text. -/
def parse (path : Files.Path) (text : String) : Except Failure Value :=
  if path.suffix == ".json" then
    match Json.read? text with
    | some v => .ok v
    | none => .error (.unparsable path "no JSON")
  else
    (Yaml.read text).mapError fun
      | .fault f => .fault f
      | e => .unparsable path (e.message text)

/-- The configuration in a file. -/
def load (t : Files.Tree) (pathText : String) : Except Failure Config := do
  let path := Files.Path.ofText pathText
  match t.read? path with
  | none => .error (.unreadable path)
  | some text =>
    match ← parse path text with
    | .map m =>
      match ofMapping path.parent m with
      | .sound c => return c
      | .faulty issues => .error (.invalid path issues)
    | _ => .error (.notMapping path)

/-! ## What is said -/

/-- A rule that is broken. -/
def Rule.text : Rule → String
  | .sourceName => "source name may only contain letters, digits, '-' and '_'"
  | .knownLibrary name => Library.unknownMessage name
  | .oneLocation => "schema needs exactly one of 'file' or 'url'"
  | .someSource => "at least one source is required"
  | .distinctSources name => "duplicate source name \"" ++ name ++ "\""

/-- What is wrong with a part. -/
def Defect.text : Defect → String
  | .missing => "is missing"
  | .unknownKey => "is not known here"
  | .keyNotText | .notText => "must be a text"
  | .notList => "must be a list"
  | .notMapping | .notLocation | .notSource => "must be a mapping"
  | .notTruth | .unclearTruth => "must be true or false"
  | .kindMissing => "has no type"
  | .kindUnknown => "has an unknown type"
  | .broken rule => rule.text

/-- A step on the way to a part. -/
def Step.text : Step → String
  | .key name => name.display
  | .index n => toString n
  | .keyItself => "key"

/-- An issue on a line of its own. -/
def Issue.line (i : Issue) : String :=
  "  " ++ ".".intercalate (i.path.map Step.text) ++ ": " ++ i.defect.text

/-- Why a file holds no configuration; a fault has no text. -/
def Failure.message : Failure → String
  | .unreadable path => "Cannot read config file " ++ path.text ++ ": no such file"
  | .unparsable path problem => "Cannot parse config file " ++ path.text ++ ": " ++ problem
  | .notMapping path => "Config file " ++ path.text ++ " must contain a mapping"
  | .invalid path issues =>
    "Invalid config file " ++ path.text ++ ":\n" ++ "\n".intercalate (issues.map Issue.line)
  | .fault _ => ""

end SchemaForge.Config
