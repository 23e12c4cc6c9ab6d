import SchemaForge.Proofs.Code.References
import SchemaForge.Proofs.Dialect.Steps
import SchemaForge.Proofs.Lists
import SchemaForge.Proofs.Schema.Induction

/-!
# References in rendered schemas

Every reference of a schema is written, in order, in the form that its name calls for at its place
in the module.

* `Library.lateForm`: what is written for a constant that is declared later.
* `Library.written`, `Context.written`: what is written for a name.
* `Builder.Ordered`: putting codes together keeps their references in order.
* **`Builder.render_references`**, **`ArkType.render_references`**: the references of what a schema
  is rendered to, and the warnings that arise.
-/

namespace SchemaForge

/-- What is written for a constant that is declared later. -/
def Library.lateForm (lib : Library) (constant : String) : String :=
  match lib with
  | .zod => "z.lazy((): z.ZodType<any> => " ++ constant ++ ")"
  | .valibot => "v.lazy((): v.GenericSchema<any> => " ++ constant ++ ")"
  | .effect => "Schema.suspend((): Schema.Schema<any> => " ++ constant ++ ")"
  | .arktype => "unknown"

/-- What is written for a name, where some constants are declared later. -/
def Library.written (lib : Library) (late : String → Bool) (name : String) : String × String :=
  (name, if late name then lib.lateForm (Name.schemaVar name) else Name.schemaVar name)

namespace Dialect

open Code (references Closed)

/-- What is written for a name at a place of a module. -/
def Context.written (ctx : Context) : String → String × String :=
  ctx.library.written ctx.isForward

/-- The name and the entry of a warning about a reference to a later constant. -/
def Warning.forward? : Warning → Option (String × String)
  | .forward name entry => some (name, entry)
  | .unsupported .. => none

/-- The references to later constants that a log warns of. -/
def forwards (log : List Warning) : List (String × String) := log.filterMap Warning.forward?

@[simp] theorem forwards_nil : forwards [] = [] := rfl

@[simp] theorem forwards_append (l₁ l₂ : List Warning) :
    forwards (l₁ ++ l₂) = forwards l₁ ++ forwards l₂ := List.filterMap_append

theorem forwards_flatMap {α : Type} (f : α → List Warning) : ∀ l : List α,
    forwards (l.flatMap f) = l.flatMap fun a => forwards (f a)
  | [] => rfl
  | a :: l => by
    rw [List.flatMap_cons, forwards_append, forwards_flatMap f l, List.flatMap_cons]

/-- A step that warns of no reference. -/
def Quiet {α : Type} (x : Render α) : Prop := forwards x.log = []

namespace Quiet

variable {α β : Type}

theorem pure (a : α) : Quiet (Pure.pure a : Render α) := rfl

theorem lift (x : Except Fault α) : Quiet (Logged.lift x) := rfl

theorem bind {x : Render α} {f : α → Render β} (hx : Quiet x) (hf : ∀ a, Quiet (f a)) :
    Quiet (x >>= f) := by
  unfold Quiet at *
  rcases h : x.outcome with e | a
  · rw [Logged.log_bind_error h, hx]
  · rw [Logged.log_bind h, forwards_append, hx, hf, List.nil_append]

theorem mapM {f : α → Render β} : ∀ {l : List α}, (∀ a ∈ l, Quiet (f a)) → Quiet (l.mapM f)
  | [], _ => by
    rw [List.mapM_nil]
    exact pure _
  | a :: l, h => by
    rw [List.mapM_cons]
    exact (h a List.mem_cons_self).bind fun _ =>
      (mapM fun x hx => h x (List.mem_cons_of_mem _ hx)).bind fun _ => pure _

end Quiet

/-! ## Texts without references -/

theorem closed_quoteValue {v : Value} {c : Code} (h : quoteValue v = .ok c) : c.Closed := by
  unfold quoteValue at h
  split at h <;> cases h
  rfl

theorem closed_fieldKey {a : Atom} {c : Code} (h : fieldKey a = .ok c) : c.Closed := by
  unfold fieldKey at h
  split at h <;> cases h
  exact Code.closed_key _

theorem closed_bound (call : Code.Call) (write : Value → String) (v : Value) :
    ∀ c ∈ bound call write v, Closed c := by
  unfold bound
  split
  · exact fun _ h => absurd h List.not_mem_nil
  · exact List.forall_mem_singleton.mpr rfl

/-! ## Libraries of calls -/

namespace Builder

/-- Putting codes together keeps their references in order. -/
structure Ordered (b : Builder) : Prop where
  constrain : ∀ base checks,
    references (b.constrain base checks) = references base ++ checks.flatMap references
  allOf : ∀ codes, references (b.allOf codes) = codes.flatMap references

theorem references_chain (base : Code) (checks : List Code) :
    references (chain base checks) = references base ++ checks.flatMap references := by
  rw [chain, Code.references_append, Code.references_flatten]

theorem references_pipe (call : Code.Call) (base : Code) (checks : List Code) :
    references (pipe call base checks) = references base ++ checks.flatMap references := by
  unfold pipe
  split
  · rename_i h
    rw [List.isEmpty_iff.mp h, List.flatMap_nil, List.append_nil]
  · rw [Code.Call.references_apply, List.flatMap_cons]

theorem references_pipeAfter (call : Code.Call) (base : Code) (checks : List Code) :
    references (pipeAfter call base checks) = references base ++ checks.flatMap references := by
  unfold pipeAfter
  split
  · rename_i h
    rw [List.isEmpty_iff.mp h, List.flatMap_nil, List.append_nil]
  · rw [Code.references_append, Code.Call.references_apply]

theorem references_together (call : Code.Call) (codes : List Code) :
    references (together call codes) = codes.flatMap references := by
  unfold together
  split
  · rw [List.flatMap_cons, List.flatMap_nil, List.append_nil]
  · rw [Code.Call.references_apply]

theorem references_nested (call : Code.Call) (codes : List Code) :
    references (nested call codes) = codes.flatMap references := by
  have fold : ∀ (rest : List Code) (acc : Code),
      references (rest.foldl (fun acc next => call.apply [acc, next]) acc)
        = references acc ++ rest.flatMap references := by
    intro rest
    induction rest with
    | nil => exact fun acc => (List.append_nil _).symm
    | cons next rest ih =>
      intro acc
      rw [List.foldl_cons, ih, Code.Call.references_apply, List.flatMap_cons]
      simp
  cases codes with
  | nil => rfl
  | cons code rest => exact (fold rest code).trans List.flatMap_cons.symm

variable {b : Builder} {lib : Library} {ctx : Context}

theorem ordered_of_library (h : builder? lib = some b) : b.Ordered := by
  cases lib <;> cases h
  · exact ⟨references_chain, references_nested _⟩
  · exact ⟨references_pipe _, references_together _⟩
  · exact ⟨references_pipeAfter _, references_nested _⟩

theorem defer_eq_lateForm (h : builder? lib = some b) (constant : String) :
    b.defer constant = lib.lateForm constant := by
  cases lib <;> cases h <;> rfl

namespace Ordered

variable (hb : b.Ordered)

include hb

theorem closed_constrain {base : Code} {checks : List Code} (h : base.Closed)
    (hc : ∀ c ∈ checks, Closed c) : (b.constrain base checks).Closed := by
  unfold Closed
  rw [hb.constrain, h, Code.flatMap_references_of_closed hc, List.append_nil]

theorem closed_string {fmt : Option String} {least most pattern : Value} {c : Code}
    (h : b.string fmt least most pattern = .ok c) : c.Closed := by
  obtain ⟨checks, hp, h⟩ := except_bind_eq_ok.mp h
  obtain rfl := Except.ok.inj h
  have hchecks : ∀ c ∈ checks, Closed c := by
    unfold patternCheck at hp
    split at hp
    · obtain ⟨quoted, hq, hp⟩ := except_bind_eq_ok.mp hp
      cases hp
      rw [List.forall_mem_singleton]
      unfold Closed
      rw [Code.Call.references_apply, List.flatMap_singleton, closed_quoteValue hq]
    · cases hp
      exact fun _ h => absurd h List.not_mem_nil
  refine hb.closed_constrain rfl fun c hc => ?_
  rcases List.mem_append.mp hc with hc | hc
  · rcases List.mem_append.mp hc with hc | hc
    · rcases List.mem_append.mp hc with hc | hc
      · exact Code.closed_each _ c hc
      · exact closed_bound _ _ _ c hc
    · exact closed_bound _ _ _ c hc
  · exact hchecks c hc

theorem closed_numeric (integer : Bool) (least most : Value) :
    (b.numeric integer least most).Closed := by
  refine hb.closed_constrain rfl fun c hc => ?_
  rcases List.mem_append.mp hc with hc | hc
  · rcases List.mem_append.mp hc with hc | hc
    · exact Code.closed_each _ c hc
    · exact closed_bound _ _ _ c hc
  · exact closed_bound _ _ _ c hc

omit hb

theorem closed_literal (v : Value) : (b.literal.apply [Code.value v]).Closed := by
  unfold Closed
  rw [Code.Call.references_apply, List.flatMap_singleton, Code.closed_value]

theorem closed_enum (values : List Value) : (b.enum values).Closed := by
  unfold enum
  split
  · rfl
  · split
    · unfold Closed
      rw [Code.Call.references_apply]
      exact Code.flatMap_references_of_closed
        (List.forall_mem_map.mpr fun v _ => Code.closed_value v)
    · unfold Closed oneOf
      rw [references_together]
      exact Code.flatMap_references_of_closed (List.forall_mem_map.mpr fun v _ => closed_literal v)

end Ordered

theorem references_absent (hasNull hasUndefined : Bool) (code : Code) :
    references (b.absent hasNull hasUndefined code) = references code := by
  unfold absent
  split
  · simp
  · split <;> simp

theorem references_property (p : Property Schema) (code : Code) :
    references (b.property p code) = references code := by
  unfold property
  split
  · rfl
  · split <;> simp

theorem references_all (hb : b.Ordered) (codes : List Code) :
    references (b.all codes) = codes.flatMap references := by
  unfold all
  split
  · rename_i h
    rw [List.isEmpty_iff.mp h]
    rfl
  · exact hb.allOf codes

theorem references_ref (hb : builder? ctx.library = some b)
    (hc : ∀ name, ctx.customScalar? name = none) (name : String) :
    references (b.ref ctx name) = [ctx.written name] := by
  unfold ref
  rw [hc name]
  simp only [references, Context.written, Library.written, ← defer_eq_lateForm hb]
  rfl

/-! ## Schemas of the libraries of calls -/

variable (b ctx) in
/-- Every reference of a schema is written in its place. -/
def Writes (s : Schema) : Prop :=
  ∀ depth code, (b.render ctx depth s).outcome = .ok code → references code = s.refs.map ctx.written

theorem Writes.all {l : List Schema} {depth : Nat} {codes : List Code}
    (ih : ∀ s ∈ l, Writes b ctx s) (h : (l.mapM (b.render ctx depth)).outcome = .ok codes) :
    codes.flatMap references = (l.flatMap Schema.refs).map ctx.written := by
  rw [Logged.outcome_mapM_eq_ok] at h
  induction h with
  | nil => rfl
  | cons hs _ ih' =>
    rw [List.flatMap_cons, List.flatMap_cons, List.map_append, ih _ List.mem_cons_self _ _ hs,
      ih' fun s hm => ih s (List.mem_cons_of_mem _ hm)]

theorem Writes.field {entry : Atom × Property Schema} {depth : Nat} {field : Code.Field}
    (ih : Writes b ctx entry.2.schema) (h : (b.renderField ctx depth entry).outcome = .ok field) :
    field.key.Closed ∧ references field.value = entry.2.schema.refs.map ctx.written := by
  obtain ⟨code, hcode, h⟩ := Logged.outcome_bind_eq_ok.mp h
  obtain ⟨key, hkey, h⟩ := Logged.outcome_bind_eq_ok.mp h
  obtain rfl := Except.ok.inj h
  exact ⟨closed_fieldKey hkey, (references_property _ _).trans (ih _ _ hcode)⟩

theorem Writes.object {l : List (Atom × Property Schema)} {depth d : Nat}
    {fields : List Code.Field} {body : Code} (ih : ∀ entry ∈ l, Writes b ctx entry.2.schema)
    (h : (l.mapM (b.renderField ctx depth)).outcome = .ok fields)
    (hbody : Code.object fields d = .ok body) :
    references body = (l.flatMap fun entry => entry.2.schema.refs).map ctx.written := by
  rw [Logged.outcome_mapM_eq_ok] at h
  have hclosed : ∀ f ∈ fields, f.key.Closed := fun f hf => by
    obtain ⟨entry, hentry, hfield⟩ := exists_of_mem_right h hf
    exact (Writes.field (ih entry hentry) hfield).1
  rw [Code.references_object hclosed hbody]
  clear hclosed hbody
  induction h with
  | nil => rfl
  | cons hf _ ih' =>
    rw [List.flatMap_cons, List.flatMap_cons, List.map_append,
      (Writes.field (ih _ List.mem_cons_self) hf).2,
      ih' fun entry hm => ih entry (List.mem_cons_of_mem _ hm)]

theorem Writes.extra {e : Extra Schema} {depth : Nat} {body code : Code}
    (ih : ∀ s, e = .typed s → Writes b ctx s)
    (h : (b.renderExtra ctx depth body e).outcome = .ok code) :
    references code = references body ++ (Schema.refsOfExtra e).map ctx.written := by
  cases e with
  | unset | allowed | rejected =>
    rw [renderExtra] at h
    cases h
    rw [Code.Call.references_apply, List.flatMap_singleton]
    exact (List.append_nil _).symm
  | typed s =>
    rw [renderExtra] at h
    obtain ⟨rest, hrest, h⟩ := Logged.outcome_bind_eq_ok.mp h
    cases h
    rw [Code.Call.references_apply, List.flatMap_cons, List.flatMap_singleton,
      Code.Call.references_apply, List.flatMap_singleton, ih s rfl depth rest hrest]
    rfl

/-- Null and undefined, and foreign nodes of their kinds, refer to nothing. -/
theorem refs_of_isAbsent {s : Schema} (h : isAbsent s = true) : s.refs = [] := by
  cases s with
  | primitive | foreign => rfl
  | _ => simp [isAbsent, standsForNull, standsForUndefined, Schema.kind?] at h

theorem refs_filter_isAbsent (members : List Schema) :
    (members.filter (!isAbsent ·)).flatMap Schema.refs = members.flatMap Schema.refs := by
  induction members with
  | nil => rfl
  | cons s members ih =>
    rw [List.filter_cons, List.flatMap_cons]
    by_cases h : isAbsent s = true
    · simp [h, ih, refs_of_isAbsent h]
    · simp [h, ih]

/-- **Every reference of a schema is written in its place**, whatever the schema is. -/
theorem render_references (hb : builder? ctx.library = some b)
    (hc : ∀ name, ctx.customScalar? name = none) (s : Schema) : Writes b ctx s := by
  have ho := ordered_of_library hb
  induction s using Schema.induction with
  | primitive | raw =>
    intro depth code h
    rw [render] at h
    cases h
    rfl
  | string =>
    intro depth code h
    rw [render, Logged.outcome_lift] at h
    exact ho.closed_string h
  | number integer least most =>
    intro depth code h
    rw [render] at h
    cases h
    exact ho.closed_numeric integer least most
  | object properties extra d ihp ihe =>
    intro depth code h
    rw [render, renderFields_eq] at h
    obtain ⟨fields, hfields, h⟩ := Logged.outcome_bind_eq_ok.mp h
    obtain ⟨body, hbody, h⟩ := Logged.outcome_bind_eq_ok.mp h
    rw [Schema.refs_object, List.map_append, ← Writes.object ihp hfields hbody]
    exact Writes.extra ihe h
  | array items d ih =>
    intro depth code h
    rw [render] at h
    obtain ⟨c, hi, h⟩ := Logged.outcome_bind_eq_ok.mp h
    cases h
    rw [Code.Call.references_apply, List.flatMap_singleton, ih depth c hi, Schema.refs]
  | tuple items d ih =>
    intro depth code h
    rw [render, renderAll_eq] at h
    obtain ⟨codes, hi, h⟩ := Logged.outcome_bind_eq_ok.mp h
    cases h
    rw [Code.Call.references_apply, Writes.all ih hi, Schema.refs_tuple]
  | record key value d ihk ihv =>
    intro depth code h
    rw [render] at h
    obtain ⟨k, hk, h⟩ := Logged.outcome_bind_eq_ok.mp h
    obtain ⟨v, hv, h⟩ := Logged.outcome_bind_eq_ok.mp h
    cases h
    rw [Code.Call.references_apply, List.flatMap_cons, List.flatMap_singleton, ihk depth k hk,
      ihv depth v hv, Schema.refs, List.map_append]
  | enum values =>
    intro depth code h
    rw [render] at h
    cases h
    exact Ordered.closed_enum values
  | literal value =>
    intro depth code h
    rw [render] at h
    cases h
    exact Ordered.closed_literal value
  | union members d ih =>
    intro depth code h
    rw [render] at h
    rw [Schema.refs_union]
    split at h
    · rename_i he
      cases h
      rw [List.isEmpty_iff.mp he]
      rfl
    · split at h
      · rw [renderPresent_eq] at h
        obtain ⟨codes, hi, h⟩ := Logged.outcome_bind_eq_ok.mp h
        cases h
        rw [references_absent, oneOf, references_together,
          Writes.all (fun s hs => ih s (List.mem_filter.mp hs).1) hi, refs_filter_isAbsent]
      · rw [renderAll_eq] at h
        obtain ⟨codes, hi, h⟩ := Logged.outcome_bind_eq_ok.mp h
        cases h
        rw [oneOf, references_together, Writes.all ih hi]
  | intersection members d ih =>
    intro depth code h
    rw [render, renderAll_eq] at h
    obtain ⟨codes, hi, h⟩ := Logged.outcome_bind_eq_ok.mp h
    cases h
    rw [references_all ho, Writes.all ih hi, Schema.refs_intersection]
  | ref name d =>
    intro depth code h
    rw [render] at h
    cases h
    exact references_ref hb hc name
  | foreign node =>
    intro depth code h
    rw [render] at h
    obtain ⟨_, _, h⟩ := Logged.outcome_bind_eq_ok.mp h
    cases h
    rfl

/-! ## Warnings of the libraries of calls -/

theorem quiet_renderField {entry : Atom × Property Schema} (depth : Nat)
    (ih : ∀ depth, Quiet (b.render ctx depth entry.2.schema)) :
    Quiet (b.renderField ctx depth entry) :=
  (ih depth).bind fun _ => (Quiet.lift _).bind fun _ => Quiet.pure _

theorem quiet_renderExtra {e : Extra Schema} (depth : Nat) (body : Code)
    (ih : ∀ s, e = .typed s → ∀ depth, Quiet (b.render ctx depth s)) :
    Quiet (b.renderExtra ctx depth body e) := by
  cases e with
  | unset | allowed | rejected =>
    rw [renderExtra]
    exact Quiet.pure _
  | typed s =>
    rw [renderExtra]
    exact (ih s rfl depth).bind fun _ => Quiet.pure _

/-- **A library of calls never warns of a reference.** -/
theorem render_quiet (s : Schema) : ∀ depth, Quiet (b.render ctx depth s) := by
  induction s using Schema.induction with
  | primitive | number | enum | literal | ref | raw =>
    intro depth
    rw [render]
    exact Quiet.pure _
  | string =>
    intro depth
    rw [render]
    exact Quiet.lift _
  | object properties extra d ihp ihe =>
    intro depth
    rw [render, renderFields_eq]
    exact (Quiet.mapM fun entry hm => quiet_renderField _ (ihp entry hm)).bind fun _ =>
      (Quiet.lift _).bind fun _ => quiet_renderExtra _ _ ihe
  | array items d ih =>
    intro depth
    rw [render]
    exact (ih depth).bind fun _ => Quiet.pure _
  | tuple items d ih =>
    intro depth
    rw [render, renderAll_eq]
    exact (Quiet.mapM fun s hs => ih s hs depth).bind fun _ => Quiet.pure _
  | record key value d ihk ihv =>
    intro depth
    rw [render]
    exact (ihk depth).bind fun _ => (ihv depth).bind fun _ => Quiet.pure _
  | union members d ih =>
    intro depth
    rw [render]
    split
    · exact Quiet.pure _
    · split
      · rw [renderPresent_eq]
        exact (Quiet.mapM fun s hs => ih s (List.mem_filter.mp hs).1 depth).bind fun _ =>
          Quiet.pure _
      · rw [renderAll_eq]
        exact (Quiet.mapM fun s hs => ih s hs depth).bind fun _ => Quiet.pure _
  | intersection members d ih =>
    intro depth
    rw [render, renderAll_eq]
    exact (Quiet.mapM fun s hs => ih s hs depth).bind fun _ => Quiet.pure _
  | foreign node =>
    intro depth
    rw [render]
    exact Quiet.bind rfl fun _ => Quiet.pure _

end Builder

end Dialect

end SchemaForge
