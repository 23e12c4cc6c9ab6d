import SchemaForge.Dialect.ArkType
import SchemaForge.Dialect.Effect
import SchemaForge.Dialect.Valibot
import SchemaForge.Dialect.Zod

/-!
# Modules

A module declares one schema constant and one type for each entry, in the order of the entries.

* `Library.importStatement`, `Library.typeStatement`: the statements that differ between libraries.
* `Declaration`: what a module says of one entry.
* `Module`: the declarations of a library, and their text.
* `emit`: the module of a list of entries, with the warnings of its renderers.
-/

namespace SchemaForge

namespace Library

/-- The import of a library, without its semicolon. -/
def importStatement : Library → String
  | .zod => "import * as z from \"zod\""
  | .valibot => "import * as v from \"valibot\""
  | .arktype => "import \x7b type \x7d from \"arktype\""
  | .effect => "import \x7b Schema \x7d from \"effect\""

/-- The type that a library infers from a schema constant. -/
def inferred (lib : Library) (schemaVar : String) : String :=
  match lib with
  | .zod => "z.infer<typeof " ++ schemaVar ++ ">"
  | .valibot => "v.InferOutput<typeof " ++ schemaVar ++ ">"
  | .arktype => "typeof " ++ schemaVar ++ ".infer"
  | .effect => "Schema.Schema.Type<typeof " ++ schemaVar ++ ">"

/-- The export of an inferred type, without its semicolon. -/
def typeStatement (lib : Library) (schemaVar typeName : String) : String :=
  "export type " ++ typeName ++ " = " ++ lib.inferred schemaVar

end Library

namespace Dialect

/-- The words of a library whose schemas are calls. -/
def builder? : Library → Option Builder
  | .zod => some Zod.builder
  | .valibot => some Valibot.builder
  | .effect => some Effect.builder
  | .arktype => none

/-- The expression of a schema at the top of a declaration. -/
def expression (ctx : Context) (s : Schema) : Render Code :=
  match builder? ctx.library with
  | some b => b.render ctx 0 s
  | none => do
    let d ← ArkType.render ctx 0 s
    return d.asExpression

/-- What a module says of one entry. -/
structure Declaration where
  /-- The comment before the declaration, empty if there is none. -/
  doc : Code
  schemaVar : String
  code : Code
  typeLine : String
  /-- Further declarations for the entry. -/
  adapters : List String
  deriving Repr, Inhabited

/-- The declaration of an entry at its place in a module. -/
def declare (ctx : Context) (entry : Entry) : Render Declaration := do
  let schemaVar := Name.schemaVar entry.name
  let code ← expression { ctx with current := entry.name } entry.schema
  let doc ← Logged.lift (Code.comment entry.schema.description "")
  let adapters := if ctx.library == .effect && ctx.options.standardSchema
    then [Effect.adapterLine schemaVar] else []
  return { doc, schemaVar, code, adapters
           typeLine := ctx.library.typeStatement schemaVar entry.name ++ ";" }

/-- The declarations of a list of entries, each seeing those before it. -/
def declareAll (ctx : Context) : List Entry → Render (List Declaration)
  | [] => pure []
  | entry :: rest => do
    let d ← declare ctx entry
    return d :: (← declareAll { ctx with declared := entry.name :: ctx.declared } rest)

/-- The lines of a declaration, after an empty one. -/
def Declaration.lines (d : Declaration) : List Code :=
  [] :: Code.commentedLine d.doc
      (("export const " ++ d.schemaVar ++ " = " : String) ++ d.code ++ ";")
    ++ Code.each (d.typeLine :: d.adapters)

/-- The lines at the top of every module. -/
def headerLines : List String :=
  ["/* eslint-disable */", "/* This file is auto-generated by tangen. Do not edit. */", ""]

/-- A module with what is to be said about it. -/
structure Module where
  library : Library
  declarations : List Declaration
  warnings : List Warning
  deriving Repr, Inhabited

namespace Module

/-- The lines of a module. -/
def lines (m : Module) : List Code :=
  Code.each (headerLines ++ [m.library.importStatement ++ ";"])
    ++ m.declarations.flatMap Declaration.lines

/-- The code of a module: each line with its line end. -/
def code (m : Module) : Code := m.lines.flatMap (· ++ "\n")

/-- The text of a module. -/
def content (m : Module) : String := m.code.text

end Module

/-- The module of a list of entries. -/
def emit (lib : Library) (options : Options) (entries : List Entry) : Except Fault Module :=
  let ctx : Context :=
    { options, library := lib, moduleNames := entries.map (·.name), declared := [], current := "" }
  let declared := declareAll ctx entries
  declared.outcome.map fun declarations =>
    { library := lib, declarations, warnings := declared.log }

end Dialect

end SchemaForge
