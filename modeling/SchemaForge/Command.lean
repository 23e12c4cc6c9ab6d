import SchemaForge.Config.Reading
import SchemaForge.Generation

/-!
# The command line

Two commands: one lists the libraries, one makes the modules of a configuration. A command is a
function of the files that are there: it says what is written to the two outputs, which files are
made, and how the program ends.

* `Command.ofArguments`: the command that arguments ask for.
* `Command.run`: what a command does.
-/

namespace SchemaForge

/-- A command. -/
inductive Command where
  | validators
  | generate (config : String) (verbose : Bool)
  deriving DecidableEq, Repr, Inhabited

namespace Command

/-! ## Arguments -/

/-- The options of the command that makes modules. -/
structure Options where
  config : String := "tangen.yaml"
  verbose : Bool := false
  deriving DecidableEq, Repr, Inhabited

/-- What an argument with short options asks for. -/
inductive Cluster where
  | flags (o : Options)
  /-- The value of the last option is in the next argument. -/
  | needsValue (o : Options)
  | unknown
  deriving Repr, Inhabited

/-- Reads short options. What follows the one with a value in the same argument is the value. -/
def cluster (o : Options) : List Char → Cluster
  | [] => .flags o
  | ['c'] => .needsValue o
  | 'c' :: value => .flags { o with config := String.ofList value }
  | 'v' :: rest => cluster { o with verbose := true } rest
  | _ => .unknown

/-- What an argument asks for. -/
def argument (o : Options) (text : String) : Cluster :=
  let long := "--config="
  if text == "--verbose" then .flags { o with verbose := true }
  else if text == "--config" then .needsValue o
  else if long.toList.isPrefixOf text.toList then
    .flags { o with config := String.ofList (text.toList.drop long.length) }
  else
    match text.toList with
    | '-' :: c :: rest => if c == '-' then .unknown else cluster o (c :: rest)
    | _ => .unknown

/-- Reads options; the last value of an option counts. Two dashes end them, and nothing may
follow. -/
def options (o : Options) : List String → Option Options
  | [] | ["--"] => some o
  | text :: rest =>
    match argument o text with
    | .flags o => options o rest
    | .needsValue o =>
      match rest with
      | value :: rest => options { o with config := value } rest
      | [] => none
    | .unknown => none

/-- The command that arguments ask for. -/
def ofArguments : List String → Option Command
  | ["validators"] => some .validators
  | "generate" :: rest => (options {} rest).map fun o => .generate o.config o.verbose
  | _ => none

/-! ## Effects -/

/-- A line on one of the two outputs. -/
inductive Line where
  | out (text : String)
  | err (text : String)
  deriving DecidableEq, Repr, Inhabited

/-- What a command does. -/
structure Report where
  lines : List Line
  /-- The files that are written, in order. -/
  written : List (Files.Path × String) := []
  /-- The files that are there afterwards. -/
  tree : Files.Tree
  succeeded : Bool
  deriving Inhabited

/-- The lines that go to the normal output. -/
def Report.out (r : Report) : List String := r.lines.filterMap fun
  | .out text => some text
  | .err _ => none

/-- The lines that go to the output for errors. -/
def Report.err (r : Report) : List String := r.lines.filterMap fun
  | .out _ => none
  | .err text => some text

/-- What is said of the outcome of a source. -/
def outcomeLines (o : Generation.Outcome) : List Line :=
  let about := "  " ++ o.source ++ ": "
  match o.result with
  | .error f => [.err (about ++ "FAILED - " ++ f.message)]
  | .ok w =>
    .out (about ++ toString w.output.count ++ " schema(s) -> " ++ w.file.text)
      :: w.output.warnings.map fun warning => .err ("    warning: " ++ warning)

/-- Whether a source has no module. -/
def hasFailed (o : Generation.Outcome) : Bool :=
  match o.result with
  | .error _ => true
  | .ok _ => false

/-- The file of a source, if it was written. -/
def writtenFile? (o : Generation.Outcome) : Option (Files.Path × String) :=
  match o.result with
  | .error _ => none
  | .ok w => some (w.file, w.output.content)

/-- What is said at the end of a run. -/
def closing (outcomes : List Generation.Outcome) : Line :=
  match (outcomes.filter hasFailed).length with
  | 0 => .out "Done!"
  | failed =>
    .err (toString failed ++ " of " ++ toString outcomes.length ++ " source(s) failed.")

/-- Makes the modules of a configuration. -/
def make (t : Files.Tree) (w : Material.Web) (configText : String) (verbose : Bool) (c : Config) :
    Report :=
  let opening : List Line :=
    (if verbose then [.out ("Config: " ++ configText), .out ("Output: " ++ c.outputDirectory.text)]
      else []) ++ [.out ("Generating " ++ toString c.sources.length ++ " source(s)...")]
  let run := Generation.generate {} c t w
  let logged := (run.log.filter fun l => verbose || l.level.isUrgent).map fun l => Line.err l.text
  match run.outcome with
  | .error _ => { lines := opening ++ logged, tree := t, succeeded := false }
  | .ok r => {
      lines := opening ++ logged ++ r.outcomes.flatMap outcomeLines ++ [closing r.outcomes]
      written := r.outcomes.filterMap writtenFile?
      tree := r.tree
      succeeded := !r.outcomes.any hasFailed }

/-- What a command does to the files that are there. -/
def run (t : Files.Tree) (w : Material.Web) : Command → Report
  | .validators =>
    { lines := Library.all.map fun lib => .out lib.name, tree := t, succeeded := true }
  | .generate config verbose =>
    match Config.load t config with
    | .ok c => make t w config verbose c
    | .error (.fault _) => { lines := [], tree := t, succeeded := false }
    | .error f => { lines := [.err ("Error: " ++ f.message)], tree := t, succeeded := false }

end Command

end SchemaForge
