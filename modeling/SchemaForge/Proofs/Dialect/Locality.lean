import SchemaForge.Proofs.Dialect.Steps
import SchemaForge.Proofs.Schema.Induction

/-!
# What a renderer asks of its place

A renderer goes to the references of a schema only, and of the module around it it asks whether
their constants stand later and whether there is code of its own for them.

* `Context.Agrees`: two places in modules at which some names are written alike.
* **`Builder.render_local`**, **`ArkType.render_local`**: schemas with these references are rendered
  alike, by libraries of calls and by ArkType.
* **`expression_local`**: so are expressions, with the warnings that arise.
-/

namespace SchemaForge.Dialect

/-- Two places in modules of one library, at which some names are written alike and warnings name
the same entry. -/
structure Context.Agrees (ctx ctx' : Context) (names : List String) : Prop where
  library : ctx.library = ctx'.library
  current : ctx.current = ctx'.current
  isForward : ∀ name ∈ names, ctx.isForward name = ctx'.isForward name
  customScalar : ∀ name ∈ names, ctx.customScalar? name = ctx'.customScalar? name

namespace Context.Agrees

variable {ctx ctx' : Context} {names : List String}

theorem mono (h : ctx.Agrees ctx' names) {part : List String} (hp : part ⊆ names) :
    ctx.Agrees ctx' part where
  library := h.library
  current := h.current
  isForward name hn := h.isForward name (hp hn)
  customScalar name hn := h.customScalar name (hp hn)

variable {s : Schema} {l : List Schema} {d : Value}

/-! ## Parts of a schema -/

theorem member (h : ctx.Agrees ctx' (l.flatMap Schema.refs)) (hs : s ∈ l) :
    ctx.Agrees ctx' s.refs :=
  h.mono fun _ hn => List.mem_flatMap.mpr ⟨s, hs, hn⟩

theorem property {properties : List (Atom × Property Schema)} {extra : Extra Schema}
    {entry : Atom × Property Schema} (h : ctx.Agrees ctx' (Schema.object properties extra d).refs)
    (he : entry ∈ properties) : ctx.Agrees ctx' entry.2.schema.refs := by
  rw [Schema.refs_object] at h
  exact h.mono fun _ hn => List.mem_append_left _ (List.mem_flatMap.mpr ⟨entry, he, hn⟩)

theorem furtherValues {properties : List (Atom × Property Schema)}
    (h : ctx.Agrees ctx' (Schema.object properties (.typed s) d).refs) :
    ctx.Agrees ctx' s.refs := by
  rw [Schema.refs_object] at h
  exact h.mono (List.subset_append_right _ _)

theorem recordKey {value : Schema} (h : ctx.Agrees ctx' (Schema.record s value d).refs) :
    ctx.Agrees ctx' s.refs := by
  rw [Schema.refs] at h
  exact h.mono (List.subset_append_left _ _)

theorem recordValue {key : Schema} (h : ctx.Agrees ctx' (Schema.record key s d).refs) :
    ctx.Agrees ctx' s.refs := by
  rw [Schema.refs] at h
  exact h.mono (List.subset_append_right _ _)

end Context.Agrees

variable {ctx ctx' : Context}

/-! ## Libraries of calls -/

namespace Builder

variable {b : Builder}

theorem ref_local {name : String} (h : ctx.Agrees ctx' [name]) :
    b.ref ctx name = b.ref ctx' name := by
  unfold ref
  rw [h.customScalar name (List.mem_singleton.mpr rfl),
    h.isForward name (List.mem_singleton.mpr rfl)]

/-- **A library of calls asks of its place no more than what becomes of references.** -/
theorem render_local (s : Schema) : ctx.Agrees ctx' s.refs →
    ∀ depth, b.render ctx depth s = b.render ctx' depth s := by
  induction s using Schema.induction with
  | primitive | string | number | enum | literal | raw =>
    intro _ depth
    rw [render, render]
  | object properties extra d ihp ihe =>
    intro h depth
    have hfields : properties.mapM (b.renderField ctx (depth + 1)) =
        properties.mapM (b.renderField ctx' (depth + 1)) :=
      Logged.mapM_congr_of_forall fun entry he => by
        unfold renderField
        rw [ihp entry he (h.property he)]
    have hextra : ∀ body, b.renderExtra ctx depth body extra =
        b.renderExtra ctx' depth body extra := by
      intro body
      cases extra with
      | unset | allowed | rejected => rw [renderExtra, renderExtra]
      | typed s => rw [renderExtra, renderExtra, ihe s rfl h.furtherValues]
    simp only [render, renderFields_eq, hfields, hextra]
  | array items d ih =>
    intro h depth
    rw [render, render, ih h]
  | tuple items d ih =>
    intro h depth
    rw [Schema.refs_tuple] at h
    rw [render, render, renderAll_eq, renderAll_eq,
      Logged.mapM_congr_of_forall fun s hs => ih s hs (h.member hs) depth]
  | record key value d ihk ihv =>
    intro h depth
    rw [render, render, ihk h.recordKey, ihv h.recordValue]
  | union members d ih =>
    intro h depth
    rw [Schema.refs_union] at h
    have hmember : ∀ s ∈ members, b.render ctx depth s = b.render ctx' depth s := fun s hs =>
      ih s hs (h.member hs) depth
    rw [render, render, renderAll_eq, renderAll_eq, renderPresent_eq, renderPresent_eq,
      Logged.mapM_congr_of_forall hmember,
      Logged.mapM_congr_of_forall fun s hs => hmember s (List.mem_of_mem_filter hs)]
  | intersection members d ih =>
    intro h depth
    rw [Schema.refs_intersection] at h
    rw [render, render, renderAll_eq, renderAll_eq,
      Logged.mapM_congr_of_forall fun s hs => ih s hs (h.member hs) depth]
  | ref name d =>
    intro h depth
    rw [render, render, ref_local h]
  | foreign node =>
    intro h depth
    rw [render, render, h.current, h.library]

end Builder

/-! ## ArkType -/

namespace ArkType

theorem ref_local {name : String} (h : ctx.Agrees ctx' [name]) : ref ctx name = ref ctx' name := by
  unfold ref
  rw [h.customScalar name (List.mem_singleton.mpr rfl),
    h.isForward name (List.mem_singleton.mpr rfl), h.current]

/-- **ArkType asks of its place no more than what becomes of references.** -/
theorem render_local (s : Schema) : ctx.Agrees ctx' s.refs →
    ∀ depth, render ctx depth s = render ctx' depth s := by
  induction s using Schema.induction with
  | primitive | string | number | enum | literal | raw =>
    intro _ depth
    rw [render, render]
  | object properties extra d ihp ihe =>
    intro h depth
    have hproperties : properties.mapM (renderProperty ctx (depth + 1)) =
        properties.mapM (renderProperty ctx' (depth + 1)) :=
      Logged.mapM_congr_of_forall fun entry he => by
        unfold renderProperty
        rw [ihp entry he (h.property he)]
    have hextra : renderExtra ctx (depth + 1) extra = renderExtra ctx' (depth + 1) extra := by
      cases extra with
      | unset | allowed | rejected => rw [renderExtra, renderExtra]
      | typed s => rw [renderExtra, renderExtra, ihe s rfl h.furtherValues]
    rw [render, render, renderProperties_eq, renderProperties_eq, hproperties, hextra]
  | array items d ih =>
    intro h depth
    rw [render, render, ih h]
  | tuple items d ih =>
    intro h depth
    rw [Schema.refs_tuple] at h
    rw [render, render, renderAll_eq, renderAll_eq,
      Logged.mapM_congr_of_forall fun s hs => ih s hs (h.member hs) depth]
  | record key value d ihk ihv =>
    intro h depth
    rw [render, render, ihk h.recordKey, ihv h.recordValue]
  | union members d ih =>
    intro h depth
    rw [Schema.refs_union] at h
    rw [render, render, renderAll_eq, renderAll_eq,
      Logged.mapM_congr_of_forall fun s hs => ih s hs (h.member hs) depth]
  | intersection members d ih =>
    intro h depth
    rw [Schema.refs_intersection] at h
    rw [render, render, renderAll_eq, renderAll_eq,
      Logged.mapM_congr_of_forall fun s hs => ih s hs (h.member hs) depth]
  | ref name d =>
    intro h depth
    rw [render, render, ref_local h]
  | foreign node =>
    intro h depth
    rw [render, render, h.current, h.library]

end ArkType

/-! ## Expressions -/

/-- **Main statement.** At two places in modules of one library where the names to which a schema
refers are written alike, the schema has the same expression, or meets the same fault, and the same
warnings arise. Nothing else of the module matters. -/
theorem expression_local {s : Schema} (h : ctx.Agrees ctx' s.refs) :
    expression ctx s = expression ctx' s := by
  unfold expression
  rw [h.library]
  split
  · exact Builder.render_local s h 0
  · rw [ArkType.render_local s h 0]

/-- A schema with references in a property, in the key and the value of a record, and in what it
says of further keys. -/
def shelf : Schema :=
  .object [(.str "owner", { schema := .union [.ref "User" .null, .null] .null }),
    (.str "tags",
      { schema := .record (.ref "Tag" .null) (.array (.ref "Date" .null) .null) .null })]
    (.typed (.tuple [.ref "User" .null] .null)) .null

/-- Its place in a module in which `Tag` stands before it, `User` and `Pet` behind it. -/
def shelfFirst : Context where
  options := { customScalars := [("Date", "type.Date")] }
  library := .arktype
  moduleNames := ["Tag", "Shelf", "User", "Pet"]
  declared := ["Tag"]
  current := "Shelf"

/-- Its place in a module without `Tag`, in which `Pet` has code of its own. -/
def shelfLast : Context where
  options := { customScalars := [("Pet", "anyPet"), ("Date", "type.Date")], standardSchema := true }
  library := .arktype
  moduleNames := ["Pet", "User", "Shelf"]
  declared := ["Pet"]
  current := "Shelf"

theorem expression_shelf : shelfFirst.Agrees shelfLast shelf.refs ∧
    shelfFirst.isForward "Pet" ≠ shelfLast.isForward "Pet" ∧
    expression shelfFirst shelf = expression shelfLast shelf ∧
    (expression shelfLast shelf).log = [.forward "User" "Shelf", .forward "User" "Shelf"] := by
  have h : shelfFirst.Agrees shelfLast shelf.refs := ⟨rfl, rfl, by decide, by decide⟩
  exact ⟨h, by decide, expression_local h, by rfl⟩

end SchemaForge.Dialect
