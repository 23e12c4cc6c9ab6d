import SchemaForge.Dialect.Module
import SchemaForge.Proofs.Logged

/-!
# Renderers as steps over lists

The renderers go through the parts of a schema one by one. Here each of these loops is a step for
every item of a list.

* `Builder.renderAll_eq`, `Builder.renderPresent_eq`, `Builder.renderFields_eq`: the loops of the
  libraries of calls.
* `ArkType.renderAll_eq`, `ArkType.renderProperties_eq`: those of ArkType.
* `customScalar?_eq_none`: without code of its own for a name, a reference is one to a constant.
-/

namespace SchemaForge.Dialect

theorem customScalar?_eq_none {ctx : Context} (h : ctx.options.customScalars = [])
    (name : String) : ctx.customScalar? name = none := by
  rw [Context.customScalar?, h]
  rfl

variable (ctx : Context) (depth : Nat)

namespace Builder

variable (b : Builder)

theorem renderAll_eq : ∀ l : List Schema, b.renderAll ctx depth l = l.mapM (b.render ctx depth)
  | [] => by rw [renderAll, List.mapM_nil]
  | s :: l => by rw [renderAll, List.mapM_cons, renderAll_eq l]

theorem renderPresent_eq : ∀ l : List Schema,
    b.renderPresent ctx depth l = (l.filter (!isAbsent ·)).mapM (b.render ctx depth)
  | [] => by rw [renderPresent, List.filter_nil, List.mapM_nil]
  | s :: l => by
    rw [renderPresent, List.filter_cons, renderPresent_eq l]
    by_cases h : isAbsent s = true
    · simp [h]
    · simp [h]

/-- The field of one property. -/
def renderField (entry : Atom × Property Schema) : Render Code.Field := do
  let code ← b.render ctx depth entry.2.schema
  let key ← Logged.lift (fieldKey entry.1)
  return { key, value := b.property entry.2 code, description := entry.2.description }

theorem renderFields_eq : ∀ l : List (Atom × Property Schema),
    b.renderFields ctx depth l = l.mapM (b.renderField ctx depth)
  | [] => by rw [renderFields, List.mapM_nil]
  | (key, p) :: l => by
    rw [renderFields, List.mapM_cons, renderFields_eq l, renderField]
    simp only [bind_assoc, pure_bind]

end Builder

namespace ArkType

theorem renderAll_eq : ∀ l : List Schema, renderAll ctx depth l = l.mapM (render ctx depth)
  | [] => by rw [renderAll, List.mapM_nil]
  | s :: l => by rw [renderAll, List.mapM_cons, renderAll_eq l]

/-- The lines of one property. -/
def renderProperty (entry : Atom × Property Schema) : Render (List Code) := do
  let d ← render ctx depth entry.2.schema
  Logged.lift (propertyLines (Code.indentation depth) entry.1 entry.2 d)

theorem renderProperties_eq : ∀ l : List (Atom × Property Schema),
    renderProperties ctx depth l = List.flatten <$> l.mapM (renderProperty ctx depth)
  | [] => by
    rw [renderProperties, List.mapM_nil, map_pure]
    rfl
  | (key, p) :: l => by
    rw [renderProperties, List.mapM_cons, renderProperties_eq l, renderProperty]
    simp only [bind_assoc, map_eq_pure_bind, pure_bind, List.flatten_cons]

end ArkType

end SchemaForge.Dialect
