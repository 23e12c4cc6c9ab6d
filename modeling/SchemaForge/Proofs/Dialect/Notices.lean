import SchemaForge.Proofs.Dialect.ArkTypeBalance
import SchemaForge.Proofs.Dialect.Balance
import SchemaForge.Proofs.Dialect.Order
import SchemaForge.Proofs.Schema.Nodes

/-!
# What a renderer notices

Four renderers go through a schema in their own ways. Each comes to an end on a schema whose values
are of the right kinds, and what it notices on the way is read off the nodes of the schema alone.

* `Context.notice?`: what is to be said of a node; `Context.notices`: of the nodes of a schema.
* `Notices`: a step that ends with a value and notices exactly this.
* **`Builder.render_notices`**, **`ArkType.render_notices`**: what the renderers notice.
* `declareAll_notices`: what the declarations of a list of entries notice.
* **`emit_reports`**: a module for every library, and the warnings that it comes with.
-/

namespace SchemaForge.Dialect

/-! ## What is to be said of a node -/

namespace Context

variable (ctx : Context)

/-- Whether a name can be written in no way where constants cannot be reached before their
declaration: there is no code for it, and its constant belongs to the module and stands later. -/
def isOutOfReach (name : String) : Bool := (ctx.customScalar? name).isNone && ctx.isForward name

/-- What is to be said of a node: that its kind is unknown, or, in ArkType, that its constant is out
of reach. -/
def notice? : Schema → Option Warning
  | .foreign node => some (.unsupported node.label ctx.current ctx.library)
  | .ref name _ =>
    if ctx.library = .arktype ∧ ctx.isOutOfReach name then some (.forward name ctx.current)
    else none
  | _ => none

/-- What is to be said of the nodes of a schema. -/
def notices (s : Schema) : List Warning := s.nodes.filterMap ctx.notice?

/-- What is to be said of the nodes of the values of further keys. -/
def noticesOfExtra (extra : Extra Schema) : List Warning :=
  (Schema.nodesOfExtra extra).filterMap ctx.notice?

theorem notices_object (properties : List (Atom × Property Schema)) (extra : Extra Schema)
    (d : Value) : ctx.notices (.object properties extra d) =
      (properties.flatMap fun entry => ctx.notices entry.2.schema) ++ ctx.noticesOfExtra extra := by
  rw [notices, Schema.nodes_object, List.filterMap_cons_none rfl, List.filterMap_append,
    List.filterMap_flatMap]
  rfl

theorem notices_record (key value : Schema) (d : Value) :
    ctx.notices (.record key value d) = ctx.notices key ++ ctx.notices value := by
  rw [notices, Schema.nodes_record, List.filterMap_cons_none rfl, List.filterMap_append]
  rfl

theorem notices_tuple (items : List Schema) (d : Value) :
    ctx.notices (.tuple items d) = items.flatMap ctx.notices := by
  rw [notices, Schema.nodes_tuple, List.filterMap_cons_none rfl, List.filterMap_flatMap]
  rfl

theorem notices_union (members : List Schema) (d : Value) :
    ctx.notices (.union members d) = members.flatMap ctx.notices := by
  rw [notices, Schema.nodes_union, List.filterMap_cons_none rfl, List.filterMap_flatMap]
  rfl

theorem notices_intersection (members : List Schema) (d : Value) :
    ctx.notices (.intersection members d) = members.flatMap ctx.notices := by
  rw [notices, Schema.nodes_intersection, List.filterMap_cons_none rfl, List.filterMap_flatMap]
  rfl

variable {ctx}

/-- A foreign node of an unknown kind stands neither for null nor for undefined. -/
theorem isAbsent_foreign {node : Foreign} (h : node.isUnknown) :
    isAbsent (.foreign node) = false := by
  have hkind : ∀ k ∈ Schema.kinds, node.kind? ≠ some k := by
    intro k hk hnode
    rw [Foreign.isUnknown, hnode, Option.all_some, Bool.not_eq_true', List.contains_eq_mem,
      decide_eq_false_iff_not] at h
    exact h hk
  rw [isAbsent, Bool.or_eq_false_iff, standsForNull, standsForUndefined, beq_eq_false_iff_ne,
    beq_eq_false_iff_ne]
  exact ⟨hkind "null" (by decide), hkind "undefined" (by decide)⟩

theorem notices_of_isAbsent {s : Schema} (hs : s.isTyped) (h : isAbsent s = true) :
    ctx.notices s = [] := by
  cases s with
  | primitive => rfl
  | foreign node =>
    rw [isAbsent_foreign (Bool.and_eq_true_iff.mp hs).1] at h
    cases h
  | _ => simp [isAbsent, standsForNull, standsForUndefined, Schema.kind?] at h

/-- Nothing is to be said of null and of undefined. -/
theorem notices_filter_isAbsent {members : List Schema} (hm : ∀ s ∈ members, s.isTyped) :
    (members.filter (!isAbsent ·)).flatMap ctx.notices = members.flatMap ctx.notices := by
  induction members with
  | nil => rfl
  | cons s members ih =>
    obtain ⟨hs, hm⟩ := List.forall_mem_cons.mp hm
    rw [List.filter_cons, List.flatMap_cons]
    by_cases h : isAbsent s = true
    · simp [h, ih hm, notices_of_isAbsent hs h]
    · simp [h, ih hm]

end Context

/-! ## Steps -/

/-- A step that ends with a value and notices exactly this. -/
def Notices {α : Type} (x : Render α) (log : List Warning) : Prop :=
  (∃ a, x.outcome = .ok a) ∧ x.log = log

namespace Notices

variable {α β : Type} {x : Render α} {l l' : List Warning}

theorem pure (a : α) : Notices (Pure.pure a : Render α) [] := ⟨⟨a, rfl⟩, rfl⟩

theorem lift {x : Except Fault α} {a : α} (h : x = .ok a) : Notices (Logged.lift x) [] :=
  ⟨⟨a, h⟩, rfl⟩

theorem note (w : Warning) : Notices (Logged.note w) [w] := ⟨⟨(), rfl⟩, rfl⟩

theorem bind {f : α → Render β} (hx : Notices x l)
    (hf : ∀ a, x.outcome = .ok a → Notices (f a) l') : Notices (x >>= f) (l ++ l') := by
  obtain ⟨⟨a, ha⟩, hl⟩ := hx
  obtain ⟨⟨b, hb⟩, hl'⟩ := hf a ha
  exact ⟨⟨b, (Logged.outcome_bind ha f).trans hb⟩, by rw [Logged.log_bind ha, hl, hl']⟩

/-- A step whose value is worked into another one. -/
theorem map (hx : Notices x l) (f : α → β) : Notices (x >>= fun a => Pure.pure (f a)) l := by
  have h : Notices (x >>= fun a => Pure.pure (f a)) (l ++ []) := hx.bind fun a _ => pure (f a)
  rwa [List.append_nil] at h

theorem mapM {f : α → Render β} {g : α → List Warning} : ∀ {items : List α},
    (∀ a ∈ items, Notices (f a) (g a)) → Notices (items.mapM f) (items.flatMap g)
  | [], _ => by
    rw [List.mapM_nil]
    exact pure _
  | a :: items, h => by
    rw [List.mapM_cons, List.flatMap_cons]
    exact (h a List.mem_cons_self).bind fun _ _ =>
      (mapM fun x hx => h x (List.mem_cons_of_mem _ hx)).map _

end Notices

/-! ## Comments -/

theorem comment_returns {d : Value} (hd : d.isTextOrNull) (indent : String) :
    ∃ doc, Code.comment d indent = .ok doc := by
  rcases Code.comment_cases hd indent with h | ⟨s, -, h⟩
  · exact ⟨_, h⟩
  · exact ⟨_, h⟩

theorem object_returns {fields : List Code.Field} (depth : Nat)
    (hd : ∀ f ∈ fields, f.description.isTextOrNull) : ∃ c, Code.object fields depth = .ok c := by
  have hlines : ∀ f ∈ fields, ∃ lines,
      f.lines (Code.indentation (depth + 1)) = .ok lines ∧ True := by
    intro f hf
    obtain ⟨doc, hdoc⟩ := comment_returns (hd f hf) (Code.indentation (depth + 1))
    exact ⟨_, by rw [Code.Field.lines, hdoc]; rfl, True.intro⟩
  obtain ⟨lines, hlines, -⟩ := except_mapM_of_forall hlines
  exact ⟨_, by rw [Code.object, hlines]; rfl⟩

/-! ## Libraries of calls -/

namespace Builder

variable {b : Builder} {ctx : Context} {depth : Nat}

section Object

variable {properties : List (Atom × Property Schema)} {extra : Extra Schema} {d : Value}
  (ho : (Schema.object properties extra d).Typed)

include ho

theorem renderFields_notices (ih : ∀ entry ∈ properties,
      Notices (b.render ctx depth entry.2.schema) (ctx.notices entry.2.schema)) :
    Notices (b.renderFields ctx depth properties)
      (properties.flatMap fun entry => ctx.notices entry.2.schema) := by
  rw [renderFields_eq]
  refine Notices.mapM fun entry he => ?_
  obtain ⟨key, hkey⟩ := ho.key he
  rw [renderField, hkey]
  exact (ih entry he).map _

/-- The fields of an object have the descriptions of its properties. -/
theorem typed_fields {fields : List Code.Field}
    (h : (b.renderFields ctx depth properties).outcome = .ok fields) :
    ∀ f ∈ fields, f.description.isTextOrNull := by
  intro f hf
  rw [renderFields_eq, Logged.outcome_mapM_eq_ok] at h
  obtain ⟨entry, he, hfield⟩ := exists_of_mem_right h hf
  obtain ⟨code, -, hfield⟩ := Logged.outcome_bind_eq_ok.mp hfield
  obtain ⟨key, -, hfield⟩ := Logged.outcome_bind_eq_ok.mp hfield
  obtain rfl := Except.ok.inj hfield
  exact ho.propertyDescription he

omit ho

theorem renderExtra_notices (body : Code)
    (ih : ∀ s, extra = .typed s → Notices (b.render ctx depth s) (ctx.notices s)) :
    Notices (b.renderExtra ctx depth body extra) (ctx.noticesOfExtra extra) := by
  cases extra with
  | unset | allowed | rejected =>
    rw [renderExtra]
    exact .pure _
  | typed s =>
    rw [renderExtra]
    exact (ih s rfl).map _

end Object

/-- **A library of calls** renders every schema whose values are of the right kinds, and notices
each node of an unknown kind once, in order. -/
theorem render_notices (hb : builder? ctx.library = some b) {s : Schema} (hs : s.Typed) :
    ∀ depth, Notices (b.render ctx depth s) (ctx.notices s) := by
  have hl : ctx.library ≠ .arktype := fun hl => by rw [hl] at hb; cases hb
  induction s using Schema.induction with
  | primitive | number | enum | literal | raw =>
    intro depth
    rw [render]
    exact .pure _
  | string =>
    intro depth
    obtain ⟨hleast, hmost, hpattern⟩ := hs.string
    obtain ⟨c, hc, -⟩ := (lexical_of_library hb).keeps.string_ok hleast hmost hpattern
    rw [render]
    exact .lift hc
  | object properties extra d ihp ihe =>
    intro depth
    rw [render, Context.notices_object]
    refine (renderFields_notices hs fun entry he => ihp entry he (hs.property he) _).bind ?_
    intro fields hfields
    obtain ⟨body, hbody⟩ := object_returns depth (typed_fields hs hfields)
    rw [hbody]
    refine renderExtra_notices body fun s hextra => ?_
    subst hextra
    exact ihe s rfl hs.furtherValues depth
  | array items d ih =>
    intro depth
    rw [render]
    exact (ih hs.items depth).map _
  | tuple items d ih =>
    intro depth
    rw [render, renderAll_eq, Context.notices_tuple]
    exact (Notices.mapM fun s hm => ih s hm (hs.tuple hm) depth).map _
  | record key value d ihk ihv =>
    intro depth
    rw [render, Context.notices_record]
    exact (ihk hs.recordKey depth).bind fun _ _ => (ihv hs.recordValue depth).map _
  | union members d ih =>
    intro depth
    rw [render, Context.notices_union]
    split
    · rename_i hempty
      rw [List.isEmpty_iff.mp hempty]
      exact .pure _
    · split
      · rw [renderPresent_eq,
          ← Context.notices_filter_isAbsent fun s hm => (hs.union hm).isTyped]
        have hpresent : ∀ s ∈ members.filter (!isAbsent ·),
            Notices (b.render ctx depth s) (ctx.notices s) := fun s hm =>
          have hs' := List.mem_of_mem_filter hm
          ih s hs' (hs.union hs') depth
        exact (Notices.mapM hpresent).map _
      · rw [renderAll_eq]
        exact (Notices.mapM fun s hm => ih s hm (hs.union hm) depth).map _
  | intersection members d ih =>
    intro depth
    rw [render, renderAll_eq, Context.notices_intersection]
    exact (Notices.mapM fun s hm => ih s hm (hs.intersection hm) depth).map _
  | ref name d =>
    intro depth
    have hnone : ctx.notices (.ref name d) = [] :=
      List.filterMap_cons_none (if_neg fun h => hl h.1)
    rw [render, hnone]
    exact .pure _
  | foreign node =>
    intro depth
    rw [render]
    exact (Notices.note _).map _

end Builder

/-! ## ArkType -/

namespace ArkType

variable {ctx : Context} {depth : Nat}

section Object

variable {properties : List (Atom × Property Schema)} {extra : Extra Schema} {d : Value}

theorem renderProperties_notices (ho : (Schema.object properties extra d).Typed)
    (ih : ∀ entry ∈ properties,
      Notices (render ctx depth entry.2.schema) (ctx.notices entry.2.schema)) :
    Notices (renderProperties ctx depth properties)
      (properties.flatMap fun entry => ctx.notices entry.2.schema) := by
  rw [renderProperties_eq, map_eq_pure_bind]
  refine (Notices.mapM fun entry he => ?_).map _
  obtain ⟨key, hkey⟩ := ho.key he
  obtain ⟨doc, hdoc⟩ := comment_returns (ho.propertyDescription he) (Code.indentation depth)
  have hlines : ∀ a, Notices
      (Logged.lift (propertyLines (Code.indentation depth) (.str key) entry.2 a)) [] :=
    fun a => .lift (by rw [propertyLines, hdoc]; rfl)
  have hboth := (ih entry he).bind fun a _ => hlines a
  rw [List.append_nil] at hboth
  rw [renderProperty, hkey]
  exact hboth

theorem renderExtra_notices
    (ih : ∀ s, extra = .typed s → Notices (render ctx depth s) (ctx.notices s)) :
    Notices (renderExtra ctx depth extra) (ctx.noticesOfExtra extra) := by
  cases extra with
  | unset | allowed | rejected =>
    rw [renderExtra]
    exact .pure _
  | typed s =>
    rw [renderExtra]
    exact (ih s rfl).map _

end Object

theorem ref_notices (hl : ctx.library = .arktype) (name : String) (d : Value) :
    Notices (ref ctx name) (ctx.notices (.ref name d)) := by
  have hnotices : ctx.notices (.ref name d) =
      if ctx.isOutOfReach name then [.forward name ctx.current] else [] := by
    by_cases h : ctx.isOutOfReach name
    · rw [if_pos h]
      exact List.filterMap_cons_some (if_pos ⟨hl, h⟩)
    · rw [if_neg h]
      exact List.filterMap_cons_none (if_neg fun h' => h h'.2)
  rw [hnotices, Context.isOutOfReach]
  unfold ref
  rcases ctx.customScalar? name with - | code
  · dsimp only
    split
    · rw [if_pos (by assumption)]
      exact (Notices.note _).map _
    · rw [if_neg (by assumption)]
      exact .pure _
  · exact .pure _

/-- **ArkType** renders every schema whose values are of the right kinds, and notices each node of an
unknown kind and each reference out of reach once, in order. -/
theorem render_notices (hl : ctx.library = .arktype) {s : Schema} (hs : s.Typed) :
    ∀ depth, Notices (render ctx depth s) (ctx.notices s) := by
  induction s using Schema.induction with
  | primitive | number | enum | literal | raw =>
    intro depth
    rw [render]
    exact .pure _
  | string =>
    intro depth
    obtain ⟨_, hstring, -⟩ := string_ok hs.string.2.2
    rw [render]
    exact .lift hstring
  | object properties extra d ihp ihe =>
    intro depth
    rw [render, Context.notices_object]
    have hextra : ∀ s, extra = .typed s → Notices (render ctx (depth + 1) s) (ctx.notices s) := by
      rintro s rfl
      exact ihe s rfl hs.furtherValues _
    exact (renderProperties_notices hs fun entry he => ihp entry he (hs.property he) _).bind
      fun _ _ => (renderExtra_notices hextra).map _
  | array items d ih =>
    intro depth
    rw [render]
    exact (ih hs.items depth).map _
  | tuple items d ih =>
    intro depth
    rw [render, renderAll_eq, Context.notices_tuple]
    exact (Notices.mapM fun s hm => ih s hm (hs.tuple hm) depth).map _
  | record key value d ihk ihv =>
    intro depth
    rw [render, Context.notices_record]
    exact (ihk hs.recordKey depth).bind fun _ _ => (ihv hs.recordValue (depth + 1)).map _
  | union members d ih =>
    intro depth
    rw [render, renderAll_eq, Context.notices_union]
    exact (Notices.mapM fun s hm => ih s hm (hs.union hm) depth).map _
  | intersection members d ih =>
    intro depth
    rw [render, renderAll_eq, Context.notices_intersection]
    exact (Notices.mapM fun s hm => ih s hm (hs.intersection hm) depth).map _
  | ref name d =>
    intro depth
    rw [render]
    exact ref_notices hl name d
  | foreign node =>
    intro depth
    rw [render]
    exact (Notices.note _).map _

end ArkType

/-! ## Modules -/

section Module

variable {ctx : Context}

theorem expression_notices {s : Schema} (hs : s.Typed) :
    Notices (expression ctx s) (ctx.notices s) := by
  unfold expression
  split
  · rename_i b hb
    exact Builder.render_notices hb hs 0
  · rename_i hb
    have hl : ctx.library = .arktype := by
      cases hl : ctx.library <;> rw [hl] at hb <;> cases hb
    exact (ArkType.render_notices hl hs 0).map _

/-- The constant of an entry and the line that exports its type. -/
def exportsOf (lib : Library) (e : Entry) : String × String :=
  (Name.schemaVar e.name, lib.typeStatement (Name.schemaVar e.name) e.name ++ ";")

theorem declare_lines {e : Entry} {d : Declaration} (h : (declare ctx e).outcome = .ok d) :
    (d.schemaVar, d.typeLine) = exportsOf ctx.library e := by
  obtain ⟨code, -, h⟩ := Logged.outcome_bind_eq_ok.mp h
  obtain ⟨doc, -, h⟩ := Logged.outcome_bind_eq_ok.mp h
  obtain rfl := Except.ok.inj h
  rfl

theorem declare_notices {e : Entry} (he : e.schema.Typed) :
    Notices (declare ctx e) ({ ctx with current := e.name }.notices e.schema) := by
  obtain ⟨doc, hdoc⟩ := comment_returns he.description ""
  rw [declare, hdoc]
  exact (expression_notices he).map _

/-- The place of an entry in a module behind others. -/
def Context.at (ctx : Context) (pre : List Entry) (e : Entry) : Context :=
  { ctx.after pre with current := e.name }

theorem declareAll_lines : ∀ {es : List Entry} {ctx : Context} {ds : List Declaration},
    (declareAll ctx es).outcome = .ok ds →
      ds.map (fun d => (d.schemaVar, d.typeLine)) = es.map (exportsOf ctx.library)
  | [], ctx, ds, h => by
    rw [declareAll] at h
    cases h
    rfl
  | e :: es, ctx, ds, h => by
    rw [declareAll] at h
    obtain ⟨d, hd, h⟩ := Logged.outcome_bind_eq_ok.mp h
    obtain ⟨rest, hrest, h⟩ := Logged.outcome_bind_eq_ok.mp h
    obtain rfl := Except.ok.inj h
    rw [List.map_cons, List.map_cons, declare_lines hd, declareAll_lines hrest]

theorem declareAll_notices {es : List Entry} (h : ∀ e ∈ es, e.schema.Typed) (ctx : Context) :
    Notices (declareAll ctx es)
      (es.zipIdx.flatMap fun x => (ctx.at (es.take x.2) x.1).notices x.1.schema) := by
  induction es generalizing ctx with
  | nil =>
    rw [declareAll]
    exact .pure _
  | cons e es ih =>
    rw [List.forall_mem_cons] at h
    have hrest : es.zipIdx.flatMap
          (fun x => (ctx.at (e :: es.take x.2) x.1).notices x.1.schema) =
        es.zipIdx.flatMap fun x =>
          ({ ctx with declared := e.name :: ctx.declared }.at (es.take x.2) x.1).notices
            x.1.schema := by
      refine List.flatMap_congr fun x _ => ?_
      rw [Context.at, Context.at, Context.after_cons]
    rw [declareAll, List.zipIdx_cons, List.flatMap_cons, Nat.zero_add, List.zipIdx_succ,
      List.flatMap_map]
    simp only [List.take_succ_cons, hrest]
    exact (declare_notices h.1).bind fun _ _ => (ih h.2 _).map _

/-! ## Warnings of each kind -/

/-- The kind, the entry and the library of a warning about a foreign node. -/
def Warning.unsupported? : Warning → Option (String × String × Library)
  | .unsupported kind entry library => some (kind, entry, library)
  | .forward .. => none

theorem unsupported_notices (s : Schema) : (ctx.notices s).filterMap Warning.unsupported? =
    (s.nodes.filterMap Schema.foreignLabel?).map (·, ctx.current, ctx.library) := by
  rw [Context.notices, List.filterMap_filterMap, List.map_filterMap]
  refine List.filterMap_congr fun node _ => ?_
  cases node with
  | ref =>
    rw [Context.notice?]
    split <;> rfl
  | _ => rfl

theorem forwards_notices (s : Schema) : forwards (ctx.notices s) =
    if ctx.library = .arktype then (s.refs.filter ctx.isOutOfReach).map (·, ctx.current)
    else [] := by
  have hnode : ∀ node : Schema, (ctx.notice? node).bind Warning.forward? =
      if ctx.library = .arktype then
        ((node.refName?.filter ctx.isOutOfReach).map (·, ctx.current))
      else none := by
    intro node
    cases node with
    | ref name => by_cases hl : ctx.library = .arktype <;>
        by_cases h : ctx.isOutOfReach name <;> simp [Context.notice?, Schema.refName?, hl, h,
          Warning.forward?]
    | foreign => split <;> rfl
    | _ => split <;> rfl
  rw [forwards, Context.notices, List.filterMap_filterMap]
  split
  · rename_i hl
    rw [Schema.refs_eq_nodes, List.filter_filterMap, List.map_filterMap]
    exact List.filterMap_congr fun node _ => by rw [hnode, if_pos hl]
  · rename_i hl
    exact List.filterMap_eq_nil_iff.mpr fun node _ => by rw [hnode, if_neg hl]

end Module

/-! ## The four libraries -/

/-- Whether a reference behind some of the entries of a module is to a constant that stands later.
Empty code for a name counts as none. -/
def IsLateReference (options : Options) (entries pre : List Entry) (name : String) : Prop :=
  (options.customScalars.lookup name).getD "" = "" ∧
    name ∈ entries.map (·.name) ∧ name ∉ pre.map (·.name)

instance (options : Options) (entries pre : List Entry) :
    DecidablePred (IsLateReference options entries pre) :=
  fun _ => inferInstanceAs (Decidable (_ ∧ _ ∧ _))

/-- What a module says of a list of entries in which the values are of the right kinds. -/
structure Reports (lib : Library) (options : Options) (entries : List Entry) (m : Module) :
    Prop where
  /-- One constant and one type for each entry, in order. -/
  declarations : m.declarations.map (fun d => (d.schemaVar, d.typeLine)) =
    entries.map (exportsOf lib)
  /-- One warning for each node of an unknown kind, in order, with the entry that it stands in. -/
  unsupported : m.warnings.filterMap Warning.unsupported? = entries.flatMap fun e =>
    (e.schema.nodes.filterMap Schema.foreignLabel?).map (·, e.name, lib)
  /-- In ArkType, and only there, one for each reference to a later constant, that is, one that the
  entries before do not declare. -/
  forward : forwards m.warnings =
    if lib = .arktype then entries.zipIdx.flatMap fun x =>
      (x.1.schema.refs.filter (IsLateReference options entries (entries.take x.2))).map
        (·, x.1.name)
    else []

section Emit

variable {options : Options} {entries : List Entry} {lib : Library}

/-- The place where a module begins. -/
def Context.start (lib : Library) (options : Options) (entries : List Entry) : Context :=
  { options, library := lib, moduleNames := entries.map (·.name), declared := [], current := "" }

theorem isOutOfReach_at (pre : List Entry) (e : Entry) (name : String) :
    ((Context.start lib options entries).at pre e).isOutOfReach name =
      decide (IsLateReference options entries pre name) := by
  rw [Bool.eq_iff_iff, decide_eq_true_iff, IsLateReference]
  simp only [Context.isOutOfReach, Context.isForward, Context.customScalar?, Context.at,
    Context.after, Context.start, Bool.and_eq_true, Bool.not_eq_true', List.contains_iff_mem,
    List.append_nil, List.contains_reverse, ← Bool.not_eq_true]
  rcases options.customScalars.lookup name with - | code
  · simp
  · by_cases h : code = "" <;> simp [h]

/-- **The renderers of all libraries report the same problems.** Each of them makes a module of a
list of entries in which the values are of the right kinds, whatever code is given for names. The
warnings about nodes of unknown kinds are the same in all of them; the only other warnings are those
of ArkType about references to later constants. -/
theorem emit_reports (options : Options) {entries : List Entry}
    (h : ∀ e ∈ entries, e.schema.Typed) (lib : Library) :
    ∃ m, emit lib options entries = .ok m ∧ Reports lib options entries m := by
  obtain ⟨⟨ds, hds⟩, hlog⟩ := declareAll_notices h (Context.start lib options entries)
  have hm : emit lib options entries =
      .ok ⟨lib, ds, (declareAll (Context.start lib options entries) entries).log⟩ :=
    congrArg (Except.map _) hds
  refine ⟨_, hm, declareAll_lines hds, ?_, ?_⟩
  · dsimp only
    rw [hlog, List.filterMap_flatMap]
    simp only [unsupported_notices]
    -- nothing depends on the number of an entry
    calc _ = (entries.zipIdx.map Prod.fst).flatMap fun e =>
          (e.schema.nodes.filterMap Schema.foreignLabel?).map (·, e.name, lib) :=
        (List.flatMap_map _ _ _).symm
      _ = _ := by rw [List.zipIdx_map_fst]
  · dsimp only
    rw [hlog, forwards_flatMap]
    simp only [forwards_notices]
    by_cases hl : lib = .arktype
    · rw [if_pos hl]
      refine List.flatMap_congr fun x _ => (if_pos hl).trans ?_
      rw [funext (isOutOfReach_at (entries.take x.2) x.1)]
      rfl
    · rw [if_neg hl]
      exact List.flatMap_eq_nil_iff.mpr fun _ _ => if_neg hl

/-- Foreign nodes of known kinds are another matter: one that passes for null goes unseen in a
union, except by ArkType. -/
def masked : Entry :=
  .of "Pet" (.union [.foreign ⟨some "null", "Mask", .null⟩, .boolean] .null) none

example : (emit .zod {} [masked]).map Module.warnings = .ok [] ∧
    (emit .arktype {} [masked]).map Module.warnings = .ok [.unsupported "null" "Pet" .arktype] := by
  decide

/-- A pet in a cycle with its owner and with a node of an unknown kind, an owner with a node of no
kind in its keys, and a tag for whose name there is code. -/
def strays : List Entry := [
  .of "Pet" (.union [.null, .foreign ⟨some "bytes", "Bytes", .null⟩, .ref "Owner" .null] .null) none,
  .of "Owner" (.record (.foreign ⟨none, "Opaque", .str "anything"⟩)
    (.array (.ref "Pet" .null) .null) .null) none,
  .of "Tag" (.tuple [.ref "Tag" .null, .foreign ⟨some "map", "Map", .null⟩] .null) none]

/-- The three unknown nodes are reported in Zod as in ArkType; only ArkType cannot name the owner. -/
theorem emit_strays : (∀ e ∈ strays, e.schema.Typed) ∧
    ∃ zod ark, emit .zod { customScalars := [("Tag", "tag")] } strays = .ok zod ∧
      emit .arktype { customScalars := [("Tag", "tag")] } strays = .ok ark ∧
      zod.warnings.filterMap Warning.unsupported? =
        [("bytes", "Pet", .zod), ("Opaque", "Owner", .zod), ("map", "Tag", .zod)] ∧
      ark.warnings.filterMap Warning.unsupported? =
        [("bytes", "Pet", .arktype), ("Opaque", "Owner", .arktype), ("map", "Tag", .arktype)] ∧
      forwards zod.warnings = [] ∧ forwards ark.warnings = [("Owner", "Pet")] := by
  have htyped : ∀ e ∈ strays, e.schema.Typed := by decide
  obtain ⟨zod, hzod, hz⟩ := emit_reports { customScalars := [("Tag", "tag")] } htyped .zod
  obtain ⟨ark, hark, ha⟩ := emit_reports { customScalars := [("Tag", "tag")] } htyped .arktype
  refine ⟨htyped, zod, ark, hzod, hark, ?_, ?_, ?_, ?_⟩
  · rw [hz.unsupported]
    rfl
  · rw [ha.unsupported]
    rfl
  · rw [hz.forward]
    rfl
  · rw [ha.forward]
    decide

end Emit

end SchemaForge.Dialect
