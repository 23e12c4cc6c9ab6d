import SchemaForge.Proofs.GraphQL.Inlining
import SchemaForge.Proofs.GraphQL.Offers
import SchemaForge.Proofs.GraphQL.Queue

/-!
# Documents without spreads

What becomes of a compilation when an inline fragment takes the place of every spread in its
documents. The session differs only in the documents and fragments that it holds, and each step of
the compilation keeps it so.

* `Inlined`: documents, and the same with an inline fragment in place of every spread.
* `exists_inlined`: there are such documents where every fragment that is spread is defined and none
  leads back to itself.
* `Session.reading`: a session that holds other documents and fragments.
* `Parallel.foldlM`: steps that are the same for both sessions are so one after another.
* **`run_inlined`**: the entries, the notes and the types that are reached stay the same, in order.
-/

namespace SchemaForge.GraphQL

open Selection Lowering

variable {fs : List Fragment} {documents documents' : List Document}

/-! ## Documents -/

/-- The same operation, with an inline fragment in place of every spread. -/
def Operation.Inlines (fs : List Fragment) (op op' : Operation) : Prop :=
  ∃ l', Selection.Inlines fs op.selections l' ∧ op' = { op with selections := l' }

/-- The same fragment, with an inline fragment in place of every spread. -/
def Fragment.Inlines (fs : List Fragment) (f f' : Fragment) : Prop :=
  ∃ l', Selection.Inlines fs f.selections l' ∧ f' = { f with selections := l' }

/-- The same definition, with an inline fragment in place of every spread. -/
inductive Definition.Inlines (fs : List Fragment) : Definition → Definition → Prop
  | operation {op op' : Operation} : op.Inlines fs op' → Inlines fs (.operation op) (.operation op')
  | fragment {f f' : Fragment} : f.Inlines fs f' → Inlines fs (.fragment f) (.fragment f')
  | other {d : Definition} : (∀ op, d ≠ .operation op) → (∀ f, d ≠ .fragment f) → Inlines fs d d

/-- The second documents are the first ones with an inline fragment in place of every spread. -/
def Inlined (documents documents' : List Document) : Prop :=
  List.Forall₂ (List.Forall₂ (Definition.Inlines (documents.flatMap Document.fragments)))
    documents documents'

/-- All fragments that documents spread are defined. -/
structure SpreadsDefined (documents : List Document) : Prop where
  operation : ∀ op ∈ documents.flatMap Document.operations,
    Selection.Defined (documents.flatMap Document.fragments) op.selections
  fragment : ∀ f ∈ documents.flatMap Document.fragments,
    Selection.Defined (documents.flatMap Document.fragments) f.selections

/-- Nothing is spread in documents. -/
structure SpreadFree (documents : List Document) : Prop where
  operation : ∀ op ∈ documents.flatMap Document.operations, spreadsOfAll op.selections = []
  fragment : ∀ f ∈ documents.flatMap Document.fragments, spreadsOfAll f.selections = []

theorem Operation.Inlines.congr {gs : List Fragment} {op op' : Operation} (h : op.Inlines fs op')
    (hfind : ∀ name, fragment? fs name = fragment? gs name) : op.Inlines gs op' := by
  obtain ⟨l', hl, rfl⟩ := h
  exact ⟨l', hl.congr hfind, rfl⟩

theorem Fragment.Inlines.congr {gs : List Fragment} {f f' : Fragment} (h : f.Inlines fs f')
    (hfind : ∀ name, fragment? fs name = fragment? gs name) : f.Inlines gs f' := by
  obtain ⟨l', hl, rfl⟩ := h
  exact ⟨l', hl.congr hfind, rfl⟩

/-- Fragments that spread nothing lead nowhere. -/
theorem grounded_of_inlines {gs gs' : List Fragment}
    (h : List.Forall₂ (Fragment.Inlines fs) gs gs') : Grounded gs' := by
  intro name f' hf n hn
  obtain ⟨f, -, l', hl, rfl⟩ := exists_of_mem_right h (List.mem_of_find?_eq_some hf)
  have hspread := mem_spreadsOfAll_of_nested _ hn
  rw [hl.spreadsOfAll_eq_nil] at hspread
  cases hspread

theorem Inlined.operations (h : Inlined documents documents') :
    List.Forall₂ (Operation.Inlines (documents.flatMap Document.fragments))
      (documents.flatMap Document.operations) (documents'.flatMap Document.operations) := by
  refine List.rel_flatMap h fun d d' hd => List.rel_filterMap ?_ hd
  rintro x x' (hop | _ | ⟨hop, -⟩)
  · exact .some hop
  · exact .none
  · cases x with
    | operation op => exact absurd rfl (hop op)
    | _ => exact .none

theorem Inlined.fragments (h : Inlined documents documents') :
    List.Forall₂ (Fragment.Inlines (documents.flatMap Document.fragments))
      (documents.flatMap Document.fragments) (documents'.flatMap Document.fragments) := by
  refine List.rel_flatMap h fun d d' hd => List.rel_filterMap ?_ hd
  rintro x x' (_ | hf | ⟨-, hf⟩)
  · exact .none
  · exact .some hf
  · cases x with
    | fragment f => exact absurd rfl (hf f)
    | _ => exact .none

/-- **Inlining leaves no spreads.** -/
theorem Inlined.spreadFree (h : Inlined documents documents') : SpreadFree documents' where
  operation op' hop := by
    obtain ⟨op, -, l', hl, rfl⟩ := exists_of_mem_right h.operations hop
    exact hl.spreadsOfAll_eq_nil
  fragment f' hf := by
    obtain ⟨f, -, l', hl, rfl⟩ := exists_of_mem_right h.fragments hf
    exact hl.spreadsOfAll_eq_nil

/-! ## Inlining is possible -/

/-- **Documents have their spreads inlined** where every fragment that is spread is defined and none
leads back to itself. -/
theorem exists_inlined (ha : Acyclic (documents.flatMap Document.fragments))
    (hd : SpreadsDefined documents) : ∃ documents', Inlined documents documents' := by
  have hfs : ∀ name f, fragment? (documents.flatMap Document.fragments) name = some f →
      Selection.Defined (documents.flatMap Document.fragments) f.selections :=
    fun name f hf => hd.fragment f (List.mem_of_find?_eq_some hf)
  have hinlines : ∀ l, Selection.Defined (documents.flatMap Document.fragments) l →
      ∃ l', Selection.Inlines (documents.flatMap Document.fragments) l l' := fun l hl =>
    exists_inlines ha hfs _ [] l ⟨below_length _ l, apart_nil _ l⟩ hl
  refine exists_forall₂ fun d hdoc => exists_forall₂ fun x hx => ?_
  cases x with
  | operation op =>
    have hmem : op ∈ documents.flatMap Document.operations :=
      List.mem_flatMap.mpr ⟨d, hdoc, List.mem_filterMap.mpr ⟨_, hx, rfl⟩⟩
    obtain ⟨l', hl⟩ := hinlines _ (hd.operation op hmem)
    exact ⟨_, .operation ⟨l', hl, rfl⟩⟩
  | fragment f =>
    have hmem : f ∈ documents.flatMap Document.fragments :=
      List.mem_flatMap.mpr ⟨d, hdoc, List.mem_filterMap.mpr ⟨_, hx, rfl⟩⟩
    obtain ⟨l', hl⟩ := hinlines _ (hd.fragment f hmem)
    exact ⟨_, .fragment ⟨l', hl, rfl⟩⟩
  | _ => exact ⟨_, .other (fun _ => nofun) fun _ => nofun⟩

/-! ## Sessions that hold other documents -/

namespace Session

/-- A session that holds other documents and fragments. -/
def reading (s : Session) (documents : List Document) (fragments : List Fragment) : Session :=
  { s with documents, fragments }

variable {s : Session} {fragments : List Fragment}

theorem note_reading (n : Note) : (s.reading documents fragments).note n =
    (s.note n).reading documents fragments := by
  unfold Session.note reading
  dsimp only
  split <;> rfl

theorem reach_reading (name : String) : (s.reading documents fragments).reach name =
    (s.reach name).reading documents fragments := by
  unfold Session.reach reading
  dsimp only
  split <;> rfl

theorem absorb_reading (events : List Event) : (s.reading documents fragments).absorb events =
    (s.absorb events).reading documents fragments := by
  induction events generalizing s with
  | nil => rfl
  | cons e events ih =>
    cases e with
    | note n =>
      have hrest := ih (s := s.note n)
      rwa [← note_reading] at hrest
    | reach name =>
      have hrest := ih (s := s.reach name)
      rwa [← reach_reading] at hrest

theorem addEntry_reading (name : String) (schema : Schema) (category : String) :
    (s.reading documents fragments).addEntry name schema category =
      (s.addEntry name schema category).reading documents fragments := by
  unfold addEntry
  rw [note_reading]
  unfold reading
  dsimp only
  split <;> rfl

theorem addLowered_reading (name category : String) (lowered : Lower Schema) :
    (s.reading documents fragments).addLowered name category lowered =
      (s.addLowered name category lowered).map (·.reading documents fragments) := by
  unfold addLowered
  rw [absorb_reading]
  cases lowered.outcome with
  | error e => rfl
  | ok x => exact congrArg Except.ok (addEntry_reading name x category)

theorem addEnum_reading (t : NamedType) : (s.reading documents fragments).addEnum t =
    (s.addEnum t).reading documents fragments := by
  unfold addEnum
  cases t.shape with
  | enum values => exact addEntry_reading _ _ _
  | _ => rfl

theorem addEnums_reading (types : List NamedType) :
    types.foldl addEnum (s.reading documents fragments) =
      (types.foldl addEnum s).reading documents fragments := by
  induction types generalizing s with
  | nil => rfl
  | cons t types ih => rw [List.foldl_cons, List.foldl_cons, addEnum_reading, ih]

theorem addInput_reading (t : NamedType) : (s.reading documents fragments).addInput t =
    (s.addInput t).map (·.reading documents fragments) := by
  unfold addInput
  split
  · exact addLowered_reading t.name "input" (inputObject s.setting t)
  · rfl

theorem addComponent_reading (name : String) : (s.reading documents fragments).addComponent name =
    (s.addComponent name).map (·.reading documents fragments) := by
  have hsystem : (s.reading documents fragments).system = s.system := rfl
  unfold addComponent
  rw [hsystem]
  cases s.system.find? name with
  | none => rfl
  | some t => exact addLowered_reading name "component" (component s.setting t)

theorem addComponents_reading : ∀ (steps place : Nat) (s : Session),
    addComponents steps place (s.reading documents fragments) =
      (addComponents steps place s).map (·.reading documents fragments)
  | 0, place, s => rfl
  | steps + 1, place, s => by
    have hreached : (s.reading documents fragments).reached = s.reached := rfl
    rw [addComponents, addComponents, hreached]
    cases s.reached[place]? with
    | none => rfl
    | some name =>
      dsimp only
      rw [addComponent_reading]
      cases s.addComponent name with
      | error e => rfl
      | ok s' => exact addComponents_reading steps (place + 1) s'

/-- The entry of a selection is the same with its spreads inlined. -/
theorem addSelection_reading (ha : Acyclic s.fragments) (hg : Grounded fragments)
    {l l' : List Selection} (hl : Selection.Inlines s.fragments l l') {inside : List String}
    (hin : Apart s.fragments inside l) (name category : String) (place : Place) (t : NamedType) :
    (s.reading documents fragments).addLowered name category
        (selection (s.reading documents fragments).setting place inside t l') =
      (s.addLowered name category (selection s.setting place inside t l)).map
        (·.reading documents fragments) := by
  have hsame : selection (s.reading documents fragments).setting place inside t l' =
      selection s.setting place inside t l := selection_inlines (c := s.setting) ha hl hin hg
  rw [hsame]
  exact addLowered_reading _ _ _

theorem addFragment_reading (ha : Acyclic s.fragments) (hg : Grounded fragments) {f f' : Fragment}
    (hf : f.Inlines s.fragments f') (hfirst : fragment? s.fragments f.name = some f) :
    (s.reading documents fragments).addFragment f' =
      (s.addFragment f).map (·.reading documents fragments) := by
  obtain ⟨l', hl, rfl⟩ := hf
  have hsystem : (s.reading documents fragments).system = s.system := rfl
  unfold addFragment
  rw [hsystem]
  dsimp only
  cases s.system.find? f.condition with
  | none => exact congrArg Except.ok (note_reading _)
  | some t => exact addSelection_reading ha hg hl (apart_self ha hfirst) _ _ _ t

theorem addOperation_reading (ha : Acyclic s.fragments) (hg : Grounded fragments)
    {op op' : Operation} (hop : op.Inlines s.fragments op') :
    (s.reading documents fragments).addOperation op' =
      (s.addOperation op).map (·.reading documents fragments) := by
  obtain ⟨l', hl, rfl⟩ := hop
  have hsystem : (s.reading documents fragments).system = s.system := rfl
  unfold addOperation
  rw [hsystem]
  dsimp only
  cases op.name with
  | none => exact congrArg Except.ok (note_reading _)
  | some name =>
    cases s.system.root? op.kind with
    | none => exact congrArg Except.ok (note_reading _)
    | some root =>
      dsimp only
      split
      · exact addSelection_reading ha hg hl (apart_nil _ _) _ _ _ root
      · rw [show inputs (s.reading documents fragments).setting = inputs s.setting from rfl,
          addLowered_reading]
        rcases hs' : s.addLowered (Name.variablesType op.kind name) "variables"
          (inputs s.setting (.operation op.kind name) op.inputs) with e | s'
        · rfl
        · have hsetting : s'.setting = s.setting :=
            serve_setting (o := ⟨_, _, inputs s.setting (.operation op.kind name) op.inputs⟩) hs'
          have hfragments : s'.fragments = s.fragments := congrArg Setting.fragments hsetting
          rw [← hfragments] at ha hl
          exact addSelection_reading ha hg hl (apart_nil _ _) _ _ _ root

/-! ## One step after another -/

/-- What a session keeps on the way to the types that are reached. -/
structure Holds (c : Setting) (documents : List Document) (s : Session) : Prop where
  setting : s.setting = c
  documents : s.documents = documents

theorem Holds.serves {c : Setting} (h : Holds c documents s) {offers : List Offer}
    {r : Except Fault Session} (hr : Serves offers s r) :
    ∀ s', r = .ok s' → Holds c documents s' := by
  rintro s' rfl
  exact ⟨hr.setting.trans h.setting, hr.documents.trans h.documents⟩

/-- A step is the same for related items when the session holds other documents and fragments. It
keeps what the session holds. -/
def Parallel (c : Setting) (documents documents' : List Document) (kept : List Fragment) {α : Type}
    (R : α → α → Prop) (add : Session → α → Except Fault Session) : Prop :=
  ∀ s a a', Holds c documents s → R a a' →
    add (s.reading documents' kept) a' = (add s a).map (·.reading documents' kept) ∧
      ∀ s', add s a = .ok s' → Holds c documents s'

variable {c : Setting} {kept : List Fragment}

/-- **Steps for related items, one after another, are the same.** -/
theorem Parallel.foldlM {α : Type} {R : α → α → Prop} {add : Session → α → Except Fault Session}
    (hadd : Parallel c documents documents' kept R add) {l l' : List α} (hl : List.Forall₂ R l l')
    (hs : Holds c documents s) :
    l'.foldlM add (s.reading documents' kept) = (l.foldlM add s).map (·.reading documents' kept) ∧
      ∀ s', l.foldlM add s = .ok s' → Holds c documents s' := by
  induction hl generalizing s with
  | nil => exact ⟨rfl, fun s' h => Except.ok.inj h ▸ hs⟩
  | @cons a a' l l' ha _ ih =>
    obtain ⟨hsame, hkeep⟩ := hadd s a a' hs ha
    rw [List.foldlM_cons, List.foldlM_cons, hsame]
    rcases hstep : add s a with e | s₁
    · exact ⟨rfl, nofun⟩
    · exact ih (hkeep s₁ hstep)

theorem addInput_parallel : Parallel c documents documents' kept Eq addInput := by
  rintro s t _ hs rfl
  exact ⟨addInput_reading t, hs.serves (addInput_serves s t hs.setting)⟩

theorem addFragment_parallel (ha : Acyclic c.fragments) (hg : Grounded kept)
    (hfirst : ∀ f ∈ c.fragments, fragment? c.fragments f.name = some f) :
    Parallel c documents documents' kept
      (fun f f' => f ∈ c.fragments ∧ f.Inlines c.fragments f') addFragment := by
  rintro s f f' hs ⟨hmem, hf⟩
  refine ⟨?_, hs.serves (addFragment_serves s f hs.setting)⟩
  obtain rfl := hs.setting
  exact addFragment_reading ha hg hf (hfirst f hmem)

theorem addOperation_parallel (ha : Acyclic c.fragments) (hg : Grounded kept) :
    Parallel c documents documents' kept (Operation.Inlines c.fragments) addOperation := by
  rintro s op op' hs hop
  refine ⟨?_, hs.serves (addOperation_serves s op hs.setting)⟩
  obtain rfl := hs.setting
  exact addOperation_reading ha hg hop

/-! ## The fragments of documents -/

theorem names_inlines {gs gs' : List Fragment} (h : List.Forall₂ (Fragment.Inlines fs) gs gs')
    (name : String) : gs'.any (·.name == name) = gs.any (·.name == name) := by
  induction h with
  | nil => rfl
  | cons hf _ ih =>
    obtain ⟨l', -, rfl⟩ := hf
    rw [List.any_cons, List.any_cons, ih]

/-- Finding fragments finds the same ones, with spreads inlined in them. -/
theorem findFragments_reading (h : List.Forall₂ (Fragment.Inlines fs)
      (s.documents.flatMap Document.fragments) (documents.flatMap Document.fragments))
    (hheld : List.Forall₂ (Fragment.Inlines fs) s.fragments fragments) :
    ∃ kept, (s.reading documents fragments).findFragments =
        s.findFragments.reading documents kept ∧
      List.Forall₂ (Fragment.Inlines fs) s.findFragments.fragments kept := by
  unfold findFragments
  rw [show (s.reading documents fragments).documents = documents from rfl]
  generalize s.documents.flatMap Document.fragments = gs,
    documents.flatMap Document.fragments = gs' at h
  induction h generalizing s fragments with
  | nil => exact ⟨fragments, rfl, hheld⟩
  | @cons f f' gs gs' hf _ ih =>
    have hf' := hf
    obtain ⟨l', -, rfl⟩ := hf'
    rw [List.foldl_cons, List.foldl_cons, show (s.reading documents fragments).fragments = fragments
      from rfl, names_inlines hheld]
    split
    · rw [note_reading]
      refine ih ?_
      rwa [show (s.note (.repeatedFragment f.name)).fragments = s.fragments from
        congrArg Setting.fragments (note_setting _)]
    · exact ih (s := { s with fragments := s.fragments ++ [f] })
        (List.rel_append hheld (.cons hf .nil))

/-- Each fragment that is kept is found under its name. -/
theorem findFragments_first (h : ∀ f ∈ s.fragments, fragment? s.fragments f.name = some f) :
    ∀ f ∈ s.findFragments.fragments, fragment? s.findFragments.fragments f.name = some f := by
  unfold findFragments
  generalize s.documents.flatMap Document.fragments = gs
  induction gs generalizing s with
  | nil => exact h
  | cons g gs ih =>
    rw [List.foldl_cons]
    split
    · refine ih ?_
      rwa [show (s.note (.repeatedFragment g.name)).fragments = s.fragments from
        congrArg Setting.fragments (note_setting _)]
    · rename_i hnew
      refine ih (s := { s with fragments := s.fragments ++ [g] }) fun f hf => ?_
      unfold fragment?
      rw [List.find?_append]
      rcases List.mem_append.mp hf with hf | hf
      · have hfound := h f hf
        unfold fragment? at hfound
        rw [hfound, Option.some_or]
      · obtain rfl := List.mem_singleton.mp hf
        have hnone : s.fragments.find? (·.name == f.name) = none := by
          rw [List.find?_eq_none]
          intro g hg hname
          exact hnew (List.any_eq_true.mpr ⟨g, hg, hname⟩)
        rw [hnone, Option.none_or, List.find?_singleton, beq_self_eq_true, if_pos rfl]

/-! ## Compilations -/

/-- Up to the types that are reached, a compilation is the same with spreads inlined. -/
theorem prepare_reading (ha : Acyclic s.findFragments.fragments) (hg : Grounded kept)
    (hfound : (s.reading documents fragments).findFragments =
      s.findFragments.reading documents kept)
    (hkept : List.Forall₂ (Fragment.Inlines s.findFragments.fragments)
      s.findFragments.fragments kept)
    (hfirst : ∀ f ∈ s.findFragments.fragments,
      fragment? s.findFragments.fragments f.name = some f)
    (hops : List.Forall₂ (Operation.Inlines s.findFragments.fragments)
      (s.documents.flatMap Document.operations) (documents.flatMap Document.operations)) :
    (s.reading documents fragments).prepare = s.prepare.map (·.reading documents kept) := by
  have hdocuments : s.findFragments.documents = s.documents := (findFragments_spec s).2.2.1
  unfold prepare
  rw [hfound]
  dsimp only
  generalize s.findFragments = s₀ at *
  rw [show (s₀.reading documents kept).system = s₀.system from rfl, addEnums_reading]
  generalize s₀.system.types.filter (!·.isReserved) = types
  have hs₁ : Holds s₀.setting s.documents (types.foldl addEnum s₀) :=
    Holds.serves ⟨rfl, hdocuments⟩ (addEnums_serves types s₀) _ rfl
  generalize types.foldl addEnum s₀ = s₁ at hs₁
  obtain ⟨hinputs, hkeep⟩ := addInput_parallel.foldlM (List.forall₂_refl types) hs₁
  rw [hinputs]
  rcases h₂ : types.foldlM addInput s₁ with e | s₂
  · rfl
  have hs₂ := hkeep s₂ h₂
  have hpairs : List.Forall₂ (fun f f' => f ∈ s₀.fragments ∧ f.Inlines s₀.fragments f')
      s₀.fragments kept := (List.forall₂_and_left _ _).mpr ⟨fun _ hf => hf, hkept⟩
  obtain ⟨hfragments, hkeep⟩ := (addFragment_parallel ha hg hfirst).foldlM hpairs hs₂
  rw [show s₀.fragments = s₂.fragments from congrArg Setting.fragments hs₂.setting.symm]
    at hfragments hkeep
  change kept.foldlM addFragment (s₂.reading documents kept) >>= _ =
    (s₂.fragments.foldlM addFragment s₂ >>= _).map _
  rw [hfragments]
  rcases h₃ : s₂.fragments.foldlM addFragment s₂ with e | s₃
  · rfl
  have hs₃ := hkeep s₃ h₃
  rw [← hs₃.documents] at hops
  exact ((addOperation_parallel ha hg).foldlM hops hs₃).1

theorem start_reading {system : TypeSystem} {scalars : List (String × String)}
    {library : Option String} (h : start system documents scalars library = .ok s) :
    start system documents' scalars library = .ok (s.reading documents' []) := by
  unfold start at h ⊢
  rcases library with _ | name
  · obtain rfl := Except.ok.inj h
    rfl
  · dsimp only at h ⊢
    split at h
    · rename_i hname
      rw [if_pos hname]
      obtain rfl := Except.ok.inj h
      rfl
    · rename_i hname
      rw [if_neg hname]
      obtain ⟨code, hcode, h⟩ := except_bind_eq_ok.mp h
      obtain rfl := Except.ok.inj h
      rw [hcode]
      rfl

/-- **Main statement.** Where every fragment that is spread is defined and none leads back to
itself, the spreads in documents can be replaced by inline fragments, at every depth. However that
is done, no spread is left and the compilation is the same: it stops with the same fault, or it ends
with the same entries, the same notes and the same types reached, all in the same order. Only the
documents and the fragments that the session holds are others. -/
theorem run_inlined {system : TypeSystem} {scalars : List (String × String)}
    {library : Option String} (h : start system documents scalars library = .ok s)
    (ha : Acyclic (documents.flatMap Document.fragments)) (hd : SpreadsDefined documents) :
    (∃ documents', Inlined documents documents') ∧
    ∀ documents', Inlined documents documents' → SpreadFree documents' ∧
      ∃ t, start system documents' scalars library = .ok t ∧
        ∃ kept, t.run =
          s.run.map fun q => { q with documents := documents', fragments := kept } := by
  refine ⟨exists_inlined ha hd, fun documents' hinlined => ⟨hinlined.spreadFree, _,
    start_reading h, ?_⟩⟩
  obtain ⟨-, hdocuments, hfragments, -⟩ := start_spec h
  obtain ⟨-, -, -, -, -, hfind⟩ := findFragments_spec s
  rw [hfragments, hdocuments, List.nil_append] at hfind
  have hfind := fun name => (hfind name).symm
  obtain ⟨kept, hfound, hkept⟩ : ∃ kept, (s.reading documents' []).findFragments =
        s.findFragments.reading documents' kept ∧
      List.Forall₂ (Fragment.Inlines (documents.flatMap Document.fragments))
        s.findFragments.fragments kept :=
    findFragments_reading (by rw [hdocuments]; exact hinlined.fragments)
      (by rw [hfragments]; exact .nil)
  have hfirst : ∀ f ∈ s.findFragments.fragments,
      fragment? s.findFragments.fragments f.name = some f :=
    findFragments_first (by rw [hfragments]; exact fun f hf => absurd hf List.not_mem_nil)
  have hops : List.Forall₂ (Operation.Inlines s.findFragments.fragments)
      (s.documents.flatMap Document.operations) (documents'.flatMap Document.operations) := by
    rw [hdocuments]
    exact hinlined.operations.imp fun op op' hop => hop.congr hfind
  have hprepare : (s.reading documents' []).prepare = s.prepare.map (·.reading documents' kept) :=
    prepare_reading (ha.congr hfind) (grounded_of_inlines hkept) hfound
      (hkept.imp fun f f' hf => hf.congr hfind) hfirst hops
  refine ⟨kept, ?_⟩
  rw [run_eq, run_eq, hprepare]
  rcases s.prepare with e | q
  · rfl
  · exact addComponents_reading _ _ q

/-! ## Owners by fragments -/

/-- The name of an owner. -/
def namedFragment : Fragment where
  name := "Named"
  condition := "Owner"
  directives := []
  selections := [.field none "name" [] [] []]

/-- The owner of a cat. -/
def keptFragment : Fragment where
  name := "Kept"
  condition := "Cat"
  directives := []
  selections := [.field none "owner" [] [] [.spread "Named" []]]

/-- The pets of an owner. -/
def petsFragment : Fragment where
  name := "Pets"
  condition := "Owner"
  directives := []
  selections := [.spread "Named" [],
    .field none "pets" [] [] [.spread "Kept" [], .spread "Kept" []]]

/-- Fragments that are spread several times, next to each other and through others. -/
def sharedDocument : Document := [
  .fragment namedFragment, .fragment keptFragment, .fragment petsFragment,
  .operation { kind := .query, name := some "Owners", inputs := [], directives := []
               selections := [.field none "owner" [] []
                 [.spread "Pets" [], .spread "Named" [], .spread "Named" []]] }]

/-- The name of an owner, inline. -/
def namedInline : Selection := .inline (some "Owner") [] namedFragment.selections

/-- The owner of a cat, inline. -/
def keptInline : Selection := .inline (some "Cat") [] [.field none "owner" [] [] [namedInline]]

/-- The pets of an owner, inline. -/
def petsInline : Selection :=
  .inline (some "Owner") [] [namedInline, .field none "pets" [] [] [keptInline, keptInline]]

/-- The same without spreads. -/
def inlineDocument : Document := [
  .fragment namedFragment,
  .fragment { keptFragment with selections := [.field none "owner" [] [] [namedInline]] },
  .fragment { petsFragment with selections :=
                [namedInline, .field none "pets" [] [] [keptInline, keptInline]] },
  .operation { kind := .query, name := some "Owners", inputs := [], directives := []
               selections := [.field none "owner" [] [] [petsInline, namedInline, namedInline]] }]

theorem inlineDocument_inlined : Inlined [sharedDocument] [inlineDocument] := by
  unfold Inlined
  rw [show [sharedDocument].flatMap Document.fragments = [namedFragment, keptFragment, petsFragment]
    from rfl]
  generalize hfs : [namedFragment, keptFragment, petsFragment] = fs
  have hfind : fragment? fs "Named" = some namedFragment ∧ fragment? fs "Kept" = some keptFragment ∧
      fragment? fs "Pets" = some petsFragment := by
    rw [← hfs]
    exact ⟨rfl, rfl, rfl⟩
  obtain ⟨hfn, hfk, hfp⟩ := hfind
  have hnamed : Selection.Inlines fs namedFragment.selections namedFragment.selections :=
    .field .nil .nil
  have hkept : Selection.Inlines fs keptFragment.selections
      [.field none "owner" [] [] [namedInline]] := .field (.spread hfn hnamed .nil) .nil
  have hpets : Selection.Inlines fs petsFragment.selections
      [namedInline, .field none "pets" [] [] [keptInline, keptInline]] :=
    .spread hfn hnamed (.field (.spread hfk hkept (.spread hfk hkept .nil)) .nil)
  have howner : Selection.Inlines fs [.spread "Pets" [], .spread "Named" [], .spread "Named" []]
      [petsInline, namedInline, namedInline] :=
    .spread hfp hpets (.spread hfn hnamed (.spread hfn hnamed .nil))
  exact .cons (.cons (.fragment ⟨_, hnamed, rfl⟩) (.cons (.fragment ⟨_, hkept, rfl⟩)
    (.cons (.fragment ⟨_, hpets, rfl⟩)
      (.cons (.operation ⟨_, .field howner .nil, rfl⟩) .nil)))) .nil

theorem sharedDocument_acyclic : Acyclic ([sharedDocument].flatMap Document.fragments) :=
  acyclic_of_lt (["Named", "Kept", "Pets"].idxOf ·) (by decide)

theorem sharedDocument_defined : SpreadsDefined [sharedDocument] := by
  have hop : ∀ op ∈ [sharedDocument].flatMap Document.operations,
      ∀ n ∈ spreadsOfAll op.selections,
        (fragment? ([sharedDocument].flatMap Document.fragments) n).isSome = true := by decide
  have hf : ∀ f ∈ [sharedDocument].flatMap Document.fragments,
      ∀ n ∈ spreadsOfAll f.selections,
        (fragment? ([sharedDocument].flatMap Document.fragments) n).isSome = true := by decide
  exact ⟨fun op h n hn => Option.isSome_iff_exists.mp (hop op h n hn),
    fun f h n hn => Option.isSome_iff_exists.mp (hf f h n hn)⟩

/-- The pets of owners are reached alike with and without spreads. -/
theorem run_shared : ∃ s q t kept, start ownerSystem [sharedDocument] [] none = .ok s ∧
    s.run = .ok q ∧ q.reached = ["Owner", "Pet", "Dog", "Cat"] ∧
    start ownerSystem [inlineDocument] [] none = .ok t ∧
    t.run = .ok { q with documents := [inlineDocument], fragments := kept } := by
  obtain ⟨s, hs, q, hq, hreached⟩ : ∃ s, start ownerSystem [sharedDocument] [] none = .ok s ∧
      ∃ q, s.run = .ok q ∧ q.reached = ["Owner", "Pet", "Dog", "Cat"] := ⟨_, rfl, _, rfl, rfl⟩
  obtain ⟨-, hall⟩ := run_inlined hs sharedDocument_acyclic sharedDocument_defined
  obtain ⟨-, t, ht, kept, hrun⟩ := hall _ inlineDocument_inlined
  rw [hq] at hrun
  exact ⟨s, q, t, kept, hs, hq, hreached, ht, hrun⟩

end Session

end SchemaForge.GraphQL
