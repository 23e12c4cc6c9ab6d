import SchemaForge.OpenApi.Lowering
import SchemaForge.Proofs.Logged
import SchemaForge.Proofs.Schema.Renaming

/-!
# Nodes and their parts

A node that is a mapping is lowered in one way: its parts are lowered, one after another, and the
results are put together without another look at how they came about.

* `Lowering.parts`: the parts of a node, in the order in which they are lowered.
* `Lowering.Assembles`: a step that lowers some nodes in order and puts the results together, without
  looking at the names in them.
* **`Lowering.mapping_cases`**: a mapping has a value of the wrong shape, or is put together from
  its parts.
-/

namespace SchemaForge.OpenApi.Lowering

/-! ## The parts of a node -/

/-- What is lowered of a word on further keys. -/
def extraParts (additional : Value) : List Value :=
  match additional with
  | .map entries => if entries.isEmpty then [] else [additional]
  | _ => []

/-- The values of a mapping. -/
def valuesOf : Value → List Value
  | .map entries => entries.map (·.2)
  | _ => []

/-- The parts of an object node: its properties if it has any, and what it says of further keys. -/
def objectParts (entries : Mapping) : List Value :=
  valuesOf (entries.getD "properties") ++ extraParts (entries.getD "additionalProperties")

/-- The parts of a node of one type. -/
def typedParts (entries : Mapping) (type : Value) : List Value :=
  if isText type "object"
      || (type.isNull && (entries.has "properties" || entries.has "additionalProperties")) then
    objectParts entries
  else
    match type with
    | .atom (.str "array") =>
      match listAt? entries "prefixItems" with
      | some items => items
      | none =>
        match entries.getD "items" with
        | .atom .null => []
        | items => [items]
    | _ => []

/-- The parts of a node whose type is settled. -/
def shapeParts (s : Setting) (entries : Mapping) (type : Value) : List Value :=
  match asKey (entries.getD "format") with
  | .error _ => []
  | .ok format =>
    match scalarCode? s format, entries.get? "const", entries.get? "enum" with
    | none, none, none =>
      match (listAt? entries "oneOf").or (listAt? entries "anyOf") with
      | some nodes => nodes
      | none =>
        match listAt? entries "allOf" with
        | some nodes =>
          if entries.has "properties" then
            nodes ++ [.map (without entries ["allOf", "description"])]
          else nodes
        | none => typedParts entries type
    | _, _, _ => []

/-- The parts of a node: the node with each of its types if it has several, and what stands under
the keyword that decides its shape otherwise. -/
def parts (s : Setting) (entries : Mapping) : List Value :=
  let (nullAmong, types) := typesOf (entries.getD "type")
  match types with
  | first :: second :: rest => (first :: second :: rest).map fun type => .map (withType entries type)
  | _ => shapeParts s entries (types.head?.getD (if nullAmong then .str "null" else .null))

/-- How the parts of a node are lowered where no property is expected. -/
abbrev toSchema (sub : Value → Lower Modified) (n : Value) : Lower Schema := do
  return (← sub n).toSchema

/-! ## Steps that put results together -/

/-- A step lowers some nodes in order and puts the results together, without looking at the names in
them; `rename` gives a result other names. -/
def Assembles {α : Type} (rename : (String → String) → α → α)
    (step : (Value → Lower Modified) → Lower α) (nodes : List Value) : Prop :=
  ∃ build : List Modified → α,
    (∀ f ms, rename f (build ms) = build (ms.map (Modified.mapRefs f))) ∧
    ∀ sub, step sub = build <$> nodes.mapM sub

namespace Assembles

variable {α β γ : Type} {ra : (String → String) → α → α} {rb : (String → String) → β → β}
  {rc : (String → String) → γ → γ}

theorem pure {a : α} (h : ∀ f, ra f a = a) : Assembles ra (fun _ => Pure.pure a) [] :=
  ⟨fun _ => a, fun f _ => h f, fun _ => rfl⟩

theorem map {step : (Value → Lower Modified) → Lower α} {nodes : List Value} (g : α → β)
    (hg : ∀ f a, rb f (g a) = g (ra f a)) (h : Assembles ra step nodes) :
    Assembles rb (fun sub => do return g (← step sub)) nodes := by
  obtain ⟨build, hn, hs⟩ := h
  refine ⟨fun ms => g (build ms), fun f ms => (hg f _).trans (congrArg g (hn f ms)),
    fun sub => ?_⟩
  simp [hs sub]

theorem bind {step₁ : (Value → Lower Modified) → Lower α} {step₂ : (Value → Lower Modified) → Lower β}
    {nodes₁ nodes₂ : List Value} (g : α → β → γ)
    (hg : ∀ f a b, rc f (g a b) = g (ra f a) (rb f b)) (h₁ : Assembles ra step₁ nodes₁)
    (h₂ : Assembles rb step₂ nodes₂) :
    Assembles rc (fun sub => do
      let a ← step₁ sub
      let b ← step₂ sub
      return g a b) (nodes₁ ++ nodes₂) := by
  obtain ⟨build₁, hn₁, hs₁⟩ := h₁
  obtain ⟨build₂, hn₂, hs₂⟩ := h₂
  refine ⟨fun ms => g (build₁ (ms.take nodes₁.length)) (build₂ (ms.drop nodes₁.length)),
    fun f ms => ?_, fun sub => ?_⟩
  · rw [hg, hn₁, hn₂, List.map_take, List.map_drop]
  · simp only [hs₁, hs₂, List.mapM_append, map_eq_pure_bind, bind_assoc, pure_bind]
    refine Logged.bind_congr_of_outcome fun ms hms => ?_
    simp [List.take_left' (Logged.length_of_mapM hms), List.drop_left' (Logged.length_of_mapM hms)]

theorem schema (node : Value) : Assembles Schema.mapRefs (fun sub => toSchema sub node) [node] :=
  ⟨fun ms => (ms.map Modified.toSchema).headD .unknown, fun f ms => by
    cases ms with
    | nil => rfl
    | cons m ms => exact m.mapRefs_toSchema f, fun sub => by simp [toSchema]⟩

theorem schemas (nodes : List Value) :
    Assembles (fun f => List.map (Schema.mapRefs f)) (fun sub => nodes.mapM (toSchema sub)) nodes :=
  ⟨List.map Modified.toSchema, fun f ms => by simp [Modified.mapRefs_toSchema],
    fun sub => Logged.mapM_map _ sub nodes⟩

end Assembles

@[simp] theorem orStop_ok {α : Type} (a : α) : orStop (.ok a) = .ok a := rfl

/-! ## Objects -/

theorem mapRefs_property (f : String → String) (required : Bool) (m : Modified) (d : Value) :
    (property required m d).mapRefs f = property required (m.mapRefs f) d := by
  unfold property
  rw [Modified.mapRefs_toProperty]
  cases required <;> rfl

/-- Properties that are set one after another. -/
def setAll (required : List Atom) (acc : List (Atom × Property Schema)) :
    List ((Atom × Value) × Modified) → List (Atom × Property Schema)
  | [] => acc
  | ((key, node), m) :: rest =>
    setAll required
      (setProperty acc key (property (isRequired required key) m (descriptionOf node))) rest

theorem mapProperties_setAll (f : String → String) (required : List Atom) :
    ∀ (l : List ((Atom × Value) × Modified)) acc, mapProperties f (setAll required acc l) =
      setAll required (mapProperties f acc) (l.map (Prod.map id (Modified.mapRefs f)))
  | [], _ => rfl
  | ((key, node), m) :: rest, acc => by
    rw [setAll, mapProperties_setAll f required rest, mapProperties_setProperty, mapRefs_property]
    rfl

theorem properties_eq (sub : Value → Lower Modified) (required : List Atom) :
    ∀ (nodes : Mapping) acc, properties sub required acc nodes =
      (fun ms => setAll required acc (nodes.zip ms)) <$> (nodes.map (·.2)).mapM sub
  | [], acc => by simp [properties, setAll]
  | (key, node) :: rest, acc => by
    rw [properties, List.map_cons, List.mapM_cons]
    simp only [properties_eq sub required rest, map_eq_pure_bind, bind_assoc, pure_bind,
      List.zip_cons_cons, setAll]

theorem assembles_properties (required : List Atom) (nodes : Mapping) :
    Assembles mapProperties (fun sub => properties sub required [] nodes) (nodes.map (·.2)) :=
  ⟨fun ms => setAll required [] (nodes.zip ms), fun f ms => by
    dsimp only
    rw [mapProperties_setAll, List.zip_map_right]
    rfl, fun sub => properties_eq sub required nodes []⟩

theorem assembles_extra (additional : Value) :
    Assembles Schema.mapRefsOfExtra (fun sub => extra (toSchema sub) additional)
      (extraParts additional) := by
  rcases additional with a | items | entries
  · cases a with
    | bool b => cases b <;> exact .pure fun _ => rfl
    | _ => exact .pure fun _ => rfl
  · exact .pure fun _ => rfl
  · unfold extra extraParts
    dsimp only
    split
    · exact .pure fun _ => rfl
    · exact (Assembles.schema _).map _ fun _ _ => rfl

/-- A value of the wrong shape ends the step whatever the parts are, or the step puts the results
for its parts together. -/
def Assembled {α : Type} (rename : (String → String) → α → α)
    (step : (Value → Lower Modified) → Lower α) (nodes : List Value) : Prop :=
  (∃ f, ∀ sub, step sub = Logged.stop (.fault f)) ∨ Assembles rename step nodes

theorem Assembled.map {α β : Type} {ra : (String → String) → α → α} {rb : (String → String) → β → β}
    {step : (Value → Lower Modified) → Lower α} {nodes : List Value} (g : α → β)
    (hg : ∀ f a, rb f (g a) = g (ra f a)) (h : Assembled ra step nodes) :
    Assembled rb (fun sub => do return g (← step sub)) nodes := by
  rcases h with ⟨f, hf⟩ | h
  · exact .inl ⟨f, fun sub => by simp only [hf sub]; rfl⟩
  · exact .inr (h.map g hg)

theorem valuesOf_of_propertyNodes {v : Value} {nodes : Mapping} (h : propertyNodes v = .ok nodes) :
    valuesOf v = nodes.map (·.2) := by
  unfold propertyNodes at h
  split at h
  · cases h
    rfl
  · rename_i hv
    split at h
    · cases h
    · cases h
      unfold valuesOf
      split
      · exact absurd rfl (hv _)
      · rfl

theorem valuesOf_of_not_given {v : Value} (h : v.isGiven = false) : valuesOf v = [] := by
  unfold valuesOf
  split
  · rename_i entries
    simp only [Value.isGiven, Bool.not_eq_false', List.isEmpty_iff] at h
    rw [h]
    rfl
  · rfl

/-- Whether a word on further keys says what their values look like. -/
def saysWhat : Value → Bool
  | .map entries => !entries.isEmpty
  | _ => false

/-- Whether a word on further keys rules them out. -/
def rulesOut : Value → Bool
  | .atom (.bool false) => true
  | _ => false

theorem extraParts_eq (additional : Value) :
    extraParts additional = if saysWhat additional then [additional] else [] := by
  cases additional with
  | map entries => cases entries <;> rfl
  | _ => rfl

theorem object_eq {sub : Value → Lower Modified} {schema : Value → Lower Schema}
    {entries : Mapping} {required : List Atom}
    (h : requiredKeys (entries.getD "required") = .ok required) :
    object sub schema entries =
      let given := (entries.getD "properties").isGiven
      let additional := entries.getD "additionalProperties"
      if !given && saysWhat additional then do
        return .dictionary (← schema additional)
      else if !given && !rulesOut additional then return .dictionary .unknown
      else do
        let nodes ← Logged.lift (orStop (propertyNodes (entries.getD "properties")))
        let lowered ← properties sub required [] nodes
        return .object lowered (← extra schema additional) .null := by
  unfold object
  rw [h]
  rfl

theorem members_assembled (required : List Atom) (v additional : Value) :
    Assembled Schema.mapRefs (fun sub => do
      let nodes ← Logged.lift (orStop (propertyNodes v))
      let lowered ← properties sub required [] nodes
      return .object lowered (← extra (toSchema sub) additional) .null)
      (valuesOf v ++ extraParts additional) := by
  rcases hn : propertyNodes v with f | nodes
  · exact .inl ⟨f, fun sub => rfl⟩
  · simp only [orStop_ok, Logged.lift_ok_bind]
    rw [valuesOf_of_propertyNodes hn]
    refine .inr ((assembles_properties required nodes).bind
      (fun lowered e => Schema.object lowered e .null) (fun f l e => ?_)
      (assembles_extra additional))
    rw [Schema.mapRefs, Schema.mapRefsOfProperties_eq]

theorem object_assembled (entries : Mapping) :
    Assembled Schema.mapRefs (fun sub => object sub (toSchema sub) entries)
      (objectParts entries) := by
  rcases hr : requiredKeys (entries.getD "required") with f | required
  · exact .inl ⟨f, fun sub => by unfold object; rw [hr]; rfl⟩
  simp only [object_eq hr, objectParts]
  rcases hg : (entries.getD "properties").isGiven with - | -
  · rw [valuesOf_of_not_given hg]
    rcases hs : saysWhat (entries.getD "additionalProperties") with - | -
    · rcases rulesOut (entries.getD "additionalProperties") with - | -
      · rw [extraParts_eq, hs]
        exact .inr (.pure fun _ => rfl)
      · rw [← valuesOf_of_not_given hg]
        exact members_assembled required _ _
    · rw [extraParts_eq, hs]
      exact .inr ((Assembles.schema _).map Schema.dictionary fun _ _ => rfl)
  · exact members_assembled required _ _

/-! ## Nodes of one type -/

theorem array_assembled (entries : Mapping) :
    Assembled Schema.mapRefs
      (fun sub => match listAt? entries "prefixItems" with
        | some items => do
          return .tuple (← items.mapM (toSchema sub)) .null
        | none =>
          match entries.getD "items" with
          | .atom .null => pure (.array .unknown .null)
          | items => do
            return .array (← toSchema sub items) .null)
      (match listAt? entries "prefixItems" with
        | some items => items
        | none =>
          match entries.getD "items" with
          | .atom .null => []
          | items => [items]) := by
  cases listAt? entries "prefixItems" with
  | some items =>
    exact .inr ((Assembles.schemas items).map (fun l => Schema.tuple l .null)
      fun f l => by rw [Schema.mapRefs, Schema.mapRefsOfAll_eq])
  | none =>
    have array : ∀ items, Assembled Schema.mapRefs
        (fun sub => do return .array (← toSchema sub items) .null) [items] := fun items =>
      .inr ((Assembles.schema items).map (fun s => Schema.array s .null)
        fun _ _ => rfl)
    cases entries.getD "items" with
    | atom a =>
      cases a with
      | null => exact .inr (.pure fun _ => rfl)
      | _ => exact array _
    | list | map => exact array _

theorem typed_assembled (entries : Mapping) (format : Atom) (type : Value) :
    Assembled Schema.mapRefs (fun sub => typed sub (toSchema sub) entries format type)
      (typedParts entries type) := by
  unfold typed typedParts
  dsimp only
  split
  · exact object_assembled entries
  · by_cases ha : type = .str "array"
    · rw [ha]
      exact array_assembled entries
    · have hparts : (match type with
          | .atom (.str "array") =>
            match listAt? entries "prefixItems" with
            | some items => items
            | none =>
              match entries.getD "items" with
              | .atom .null => []
              | items => [items]
          | _ => []) = [] := by
        split
        · exact absurd rfl ha
        · rfl
      rw [hparts]
      split
      · exact absurd rfl ha
      all_goals exact .inr (.pure fun _ => rfl)

/-! ## Nodes whose type is settled -/

/-- The schema of a node with other names; whether null is listed does not change. -/
abbrev renameFirst (f : String → String) (r : Schema × Bool) : Schema × Bool :=
  (r.1.mapRefs f, r.2)

theorem mapRefs_oneOf (f : String → String) (l : List Schema) :
    (oneOf l).mapRefs f = oneOf (l.map (Schema.mapRefs f)) := by
  unfold oneOf
  rcases l with _ | ⟨s, _ | ⟨t, l⟩⟩
  · rfl
  · rfl
  · exact Schema.mapRefs_union f _ _

theorem mapRefs_allOf (f : String → String) (l : List Schema) :
    (allOf l).mapRefs f = allOf (l.map (Schema.mapRefs f)) := by
  unfold allOf
  rcases l with _ | ⟨s, _ | ⟨t, l⟩⟩
  · rfl
  · rfl
  · exact congrArg (Schema.intersection · .null) (Schema.mapRefsOfAll_eq f _)

theorem mapRefs_const (f : String → String) (v : Value) : (const v).mapRefs f = const v := by
  unfold const
  split <;> rfl

theorem mapRefs_enum {v : Value} {r : Schema × Bool} (h : enum v = .ok r) (f : String → String) :
    renameFirst f r = r := by
  obtain ⟨all, -, h⟩ := except_bind_eq_ok.mp h
  dsimp only at h
  split at h
  · cases h
    cases all.any Value.isNull <;> rfl
  · split at h
    · cases h
      rfl
    · cases h
      refine Prod.ext ((Schema.mapRefs_union f _ _).trans ?_) rfl
      rw [List.map_map]
      rfl

theorem allOf_assembled (entries : Mapping) (nodes : List Value) :
    Assembled renameFirst
      (fun sub => do
        let members ← nodes.mapM (toSchema sub)
        if entries.has "properties" then
          let rest ← toSchema sub (.map (without entries ["allOf", "description"]))
          return (allOf (members ++ [rest]), false)
        else return (allOf members, false))
      (if entries.has "properties" then
        nodes ++ [.map (without entries ["allOf", "description"])]
      else nodes) := by
  split
  · refine .inr ((Assembles.schemas nodes).bind (fun members rest => (allOf (members ++ [rest]), false))
      (fun f members rest => ?_) (.schema _))
    rw [renameFirst, mapRefs_allOf, List.map_append, List.map_singleton]
  · refine .inr ((Assembles.schemas nodes).map (fun members => (allOf members, false))
      fun f members => ?_)
    rw [renameFirst, mapRefs_allOf]

theorem shape_assembled (s : Setting) (entries : Mapping) (type : Value) :
    Assembled renameFirst (fun sub => shape s sub entries type) (shapeParts s entries type) := by
  unfold shape shapeParts
  rcases asKey (entries.getD "format") with f | format
  · exact .inl ⟨f, fun sub => rfl⟩
  simp only [orStop_ok, Logged.lift_ok_bind]
  rcases scalarCode? s format with _ | code
  · rcases entries.get? "const" with _ | v
    · rcases entries.get? "enum" with _ | v
      · dsimp only
        rcases (listAt? entries "oneOf").or (listAt? entries "anyOf") with _ | nodes
        · rcases listAt? entries "allOf" with _ | nodes
          · exact (typed_assembled entries format type).map (fun x => (x, false)) fun _ _ => rfl
          · exact allOf_assembled entries nodes
        · refine .inr ((Assembles.schemas nodes).map (fun members => (oneOf members, false))
            fun f members => ?_)
          rw [renameFirst, mapRefs_oneOf]
      · dsimp only
        rcases he : enum v with f | r
        · exact .inl ⟨f, fun sub => rfl⟩
        · exact .inr (.pure (mapRefs_enum he))
    · exact .inr (.pure fun f => Prod.ext (mapRefs_const f v) rfl)
  · exact .inr (.pure fun _ => rfl)

/-! ## Nodes -/

theorem several_assembled (entries : Mapping) (types : List Value) (nullable : Bool) :
    Assembled Modified.mapRefs
      (fun sub => do
        let members ← types.mapM fun type => toSchema sub (.map (withType entries type))
        return { schema := .union members .null, nullable })
      (types.map fun type => .map (withType entries type)) := by
  have h : Assembles Modified.mapRefs _ _ :=
    (Assembles.schemas (types.map fun type => .map (withType entries type))).map
      (fun members => ({ schema := .union members .null, nullable } : Modified))
      fun f members => congrArg (fun x => ({ schema := x, nullable } : Modified))
        (Schema.mapRefs_union f _ _)
  simp only [List.mapM_map] at h
  exact .inr h

theorem mapping_assembled (s : Setting) (entries : Mapping) :
    Assembled Modified.mapRefs (fun sub => mapping s sub entries) (parts s entries) := by
  unfold mapping parts
  rcases typesOf (entries.getD "type") with ⟨nullAmong, types⟩
  have sole : ∀ type, Assembled Modified.mapRefs
      (fun sub => do
        let shaped ← shape s sub entries type
        let description := entries.getD "description"
        let described := if description.isGiven then shaped.1.describe description else shaped.1
        return { schema := described
                 nullable := (isTrue (entries.getD "nullable") || nullAmong) || shaped.2 })
      (shapeParts s entries type) := fun type => by
    refine (shape_assembled s entries type).map (fun r => Modified.mk
      (if (entries.getD "description").isGiven then r.1.describe (entries.getD "description")
        else r.1) ((isTrue (entries.getD "nullable") || nullAmong) || r.2) false false)
      fun f r => ?_
    unfold Modified.mapRefs
    congr 1
    split
    · exact Schema.mapRefs_describe f _ _
    · rfl
  rcases types with _ | ⟨first, _ | ⟨second, rest⟩⟩
  · exact sole _
  · exact sole _
  · exact several_assembled entries (first :: second :: rest) _

/-- **A node that is a mapping is put together from its parts**, or a value in it has the wrong
shape. Putting together does not look at names. -/
theorem mapping_cases (s : Setting) (entries : Mapping) :
    (∃ f, ∀ sub, mapping s sub entries = Logged.stop (.fault f)) ∨
      ∃ build : List Modified → Modified,
        (∀ f ms, (build ms).mapRefs f = build (ms.map (Modified.mapRefs f))) ∧
        ∀ sub, mapping s sub entries = build <$> (parts s entries).mapM sub :=
  mapping_assembled s entries

end SchemaForge.OpenApi.Lowering
