import SchemaForge.GraphQL.Session
import SchemaForge.Proofs.GraphQL.Reaching

/-!
# What a compilation offers

A compilation lowers one thing after another and offers each for an entry. The first offer of a name
is taken; what lowering noticed is taken in from every offer.

* `Offer`, `Session.serve`: an offer, and what becomes of it.
* `Serves`: some offers are made to a session one after another, with notes between them.
* `Served`: what a session holds after offers; **`Serves.served`**: it holds this of all of them.
* `firstOffers`, `prepare_serves`: the offers of a compilation before the types that were reached.
-/

namespace SchemaForge.GraphQL

open Lowering

/-- Something that is offered for an entry. -/
structure Offer where
  name : String
  category : String
  lowered : Lower Schema

namespace Session

variable {s s' : Session} {n : String}

/-- Lowers what is offered and adds its entry. -/
def serve (s : Session) (o : Offer) : Except Fault Session :=
  s.addLowered o.name o.category o.lowered

/-- The names of the entries. -/
def names (s : Session) : List String := s.entries.map (·.name)

/-! ## Notes and names -/

@[simp] theorem note_entries (n : Note) : (s.note n).entries = s.entries := by
  unfold Session.note
  split <;> rfl

@[simp] theorem note_reached (n : Note) : (s.note n).reached = s.reached := by
  unfold Session.note
  split <;> rfl

@[simp] theorem note_setting (n : Note) : (s.note n).setting = s.setting := by
  unfold Session.note
  split <;> rfl

@[simp] theorem note_documents (n : Note) : (s.note n).documents = s.documents := by
  unfold Session.note
  split <;> rfl

theorem mem_note_notes {m : Note} (n : Note) : m ∈ (s.note n).notes ↔ m ∈ s.notes ∨ m = n := by
  unfold Session.note
  split
  · rename_i h
    rw [List.contains_iff_mem] at h
    exact ⟨.inl, fun h' => h'.elim id fun he => he ▸ h⟩
  · simp

@[simp] theorem reach_entries (name : String) : (s.reach name).entries = s.entries := by
  unfold Session.reach
  split <;> rfl

@[simp] theorem reach_notes (name : String) : (s.reach name).notes = s.notes := by
  unfold Session.reach
  split <;> rfl

@[simp] theorem reach_setting (name : String) : (s.reach name).setting = s.setting := by
  unfold Session.reach
  split <;> rfl

@[simp] theorem reach_documents (name : String) : (s.reach name).documents = s.documents := by
  unfold Session.reach
  split <;> rfl

theorem mem_reach_reached (name : String) : n ∈ (s.reach name).reached ↔ n ∈ s.reached ∨ n = name := by
  unfold Session.reach
  split
  · rename_i h
    rw [List.contains_iff_mem] at h
    exact ⟨.inl, fun h' => h'.elim id fun he => he ▸ h⟩
  · simp

theorem nodup_reach (h : s.reached.Nodup) (name : String) : (s.reach name).reached.Nodup := by
  unfold Session.reach
  split
  · exact h
  · rename_i hnew
    rw [List.contains_iff_mem] at hnew
    exact List.nodup_append.mpr ⟨h, List.nodup_singleton _, fun a ha b hb hab => hnew <| by
      rw [← List.mem_singleton.mp hb, ← hab]
      exact ha⟩

theorem prefix_reach (s : Session) (name : String) : s.reached <+: (s.reach name).reached := by
  unfold Session.reach
  split
  · exact List.prefix_refl _
  · exact List.prefix_append _ _

/-- **What taking in a log changes.** The notes and the reached names grow by those of the log. -/
structure Absorbs (s : Session) (events : List Event) (s' : Session) : Prop where
  setting : s'.setting = s.setting
  documents : s'.documents = s.documents
  entries : s'.entries = s.entries
  notes : ∀ n, n ∈ s'.notes ↔ n ∈ s.notes ∨ .note n ∈ events
  reached : ∀ n, n ∈ s'.reached ↔ n ∈ s.reached ∨ .reach n ∈ events
  grows : s.reached <+: s'.reached
  nodup : s.reached.Nodup → s'.reached.Nodup

theorem absorbs (s : Session) (events : List Event) : Absorbs s events (s.absorb events) := by
  induction events generalizing s with
  | nil =>
    exact ⟨rfl, rfl, rfl, fun n => by simp [absorb], fun n => by simp [absorb],
      List.prefix_refl _, id⟩
  | cons e events ih =>
    rcases e with m | name
    · have h : Absorbs (s.note m) events (s.absorb (.note m :: events)) := ih (s.note m)
      refine ⟨by simp [h.setting], by simp [h.documents], by simp [h.entries], fun n => ?_,
        fun n => by simp [h.reached], by simpa using h.grows, by simpa using h.nodup⟩
      rw [h.notes, mem_note_notes]
      simp [or_assoc]
    · have h : Absorbs (s.reach name) events (s.absorb (.reach name :: events)) := ih (s.reach name)
      refine ⟨by simp [h.setting], by simp [h.documents], by simp [h.entries],
        fun n => by simp [h.notes], fun n => ?_, (prefix_reach s name).trans h.grows,
        fun hd => h.nodup (nodup_reach hd name)⟩
      rw [h.reached, mem_reach_reached]
      simp [or_assoc]

/-! ## Entries -/

/-- An entry is added when its name is new; otherwise the entries stay. -/
theorem addEntry_entries (name : String) (schema : Schema) (category : String) :
    (s.addEntry name schema category).entries =
      if name ∈ s.names then s.entries
      else s.entries ++ [Entry.of name schema (some category)] := by
  have htaken : s.entries.any (·.name == name) = true ↔ name ∈ s.names := by
    simp [names]
  unfold addEntry
  by_cases h : name ∈ s.names
  · rw [if_pos (htaken.mpr h), if_pos h, note_entries]
  · rw [if_neg (mt htaken.mp h), if_neg h]

@[simp] theorem addEntry_reached (name : String) (schema : Schema) (category : String) :
    (s.addEntry name schema category).reached = s.reached := by
  unfold addEntry
  split
  · exact note_reached _
  · rfl

@[simp] theorem addEntry_setting (name : String) (schema : Schema) (category : String) :
    (s.addEntry name schema category).setting = s.setting := by
  unfold addEntry
  split
  · exact note_setting _
  · rfl

@[simp] theorem addEntry_documents (name : String) (schema : Schema) (category : String) :
    (s.addEntry name schema category).documents = s.documents := by
  unfold addEntry
  split
  · exact note_documents _
  · rfl

theorem notes_subset_addEntry (name : String) (schema : Schema) (category : String) :
    s.notes ⊆ (s.addEntry name schema category).notes := by
  intro n hn
  unfold addEntry
  split
  · exact (mem_note_notes _).mpr (.inl hn)
  · exact hn

theorem mem_names_addEntry (name : String) (schema : Schema) (category : String) :
    n ∈ (s.addEntry name schema category).names ↔ n ∈ s.names ∨ n = name := by
  rw [names, addEntry_entries]
  split
  · rename_i h
    exact ⟨.inl, fun h' => h'.elim id fun he => he ▸ h⟩
  · simp [names, Entry.of]

theorem nodup_names_addEntry (h : s.names.Nodup) (name : String) (schema : Schema)
    (category : String) : (s.addEntry name schema category).names.Nodup := by
  rw [names, addEntry_entries]
  split
  · exact h
  · rename_i hnew
    rw [List.map_append, List.nodup_append]
    refine ⟨h, List.nodup_singleton _, fun a ha b hb hab => hnew ?_⟩
    have hname : b = name := List.mem_singleton.mp hb
    rw [← hname, ← hab]
    exact ha

/-! ## Offers -/

/-- **What serving an offer does.** -/
theorem serve_eq_ok {o : Offer} : s.serve o = .ok s' ↔ ∃ x, o.lowered.outcome = .ok x ∧
    s' = (s.absorb o.lowered.log).addEntry o.name x o.category := by
  unfold serve addLowered
  rw [except_bind_eq_ok]
  exact exists_congr fun x => and_congr_right fun _ => ⟨fun h => (Except.ok.inj h).symm,
    fun h => by rw [h]; rfl⟩

theorem serve_eq_error {o : Offer} {e : Fault} (h : s.serve o = .error e) :
    o.lowered.outcome = .error e := by
  unfold serve addLowered at h
  rcases except_bind_eq_error.mp h with h | ⟨x, -, h⟩
  · exact h
  · cases h

theorem serve_setting {o : Offer} (h : s.serve o = .ok s') : s'.setting = s.setting := by
  obtain ⟨x, -, rfl⟩ := serve_eq_ok.mp h
  rw [addEntry_setting, (absorbs s _).setting]

theorem serve_documents {o : Offer} (h : s.serve o = .ok s') : s'.documents = s.documents := by
  obtain ⟨x, -, rfl⟩ := serve_eq_ok.mp h
  rw [addEntry_documents, (absorbs s _).documents]

/-- Offers are made to a session one after another, with notes between them, until one of them cannot
be lowered. -/
inductive Serves : List Offer → Session → Except Fault Session → Prop
  | done (s : Session) : Serves [] s (.ok s)
  | note {offers : List Offer} {s : Session} {r : Except Fault Session} (n : Note) :
    Serves offers (s.note n) r → Serves offers s r
  | serve {o : Offer} {offers : List Offer} {s s' : Session} {r : Except Fault Session} :
    s.serve o = .ok s' → Serves offers s' r → Serves (o :: offers) s r
  | stop {o : Offer} {offers : List Offer} {s : Session} {e : Fault} :
    s.serve o = .error e → Serves (o :: offers) s (.error e)

namespace Serves

variable {offers offers' : List Offer} {r : Except Fault Session}

theorem single (s : Session) (o : Offer) : Serves [o] s (s.serve o) := by
  rcases h : s.serve o with e | s'
  · exact .stop h
  · exact .serve h (.done s')

theorem bind (h : Serves offers s r) {f : Session → Except Fault Session}
    (hf : ∀ s', r = .ok s' → Serves offers' s' (f s')) : Serves (offers ++ offers') s (r >>= f) := by
  induction h with
  | done s => exact hf s rfl
  | note n _ ih => exact .note n (ih hf)
  | serve hs _ ih => exact .serve hs (ih hf)
  | stop hs => exact .stop hs

theorem setting (h : Serves offers s (.ok s')) : s'.setting = s.setting := by
  generalize hr : (Except.ok s' : Except Fault Session) = r at h
  induction h with
  | done s => rw [Except.ok.inj hr]
  | note n _ ih => rw [ih hr, note_setting]
  | serve hs _ ih => rw [ih hr, serve_setting hs]
  | stop _ => cases hr

theorem documents (h : Serves offers s (.ok s')) : s'.documents = s.documents := by
  generalize hr : (Except.ok s' : Except Fault Session) = r at h
  induction h with
  | done s => rw [Except.ok.inj hr]
  | note n _ ih => rw [ih hr, note_documents]
  | serve hs _ ih => rw [ih hr, serve_documents hs]
  | stop _ => cases hr

/-- Where making offers stops, one of them cannot be lowered. -/
theorem exists_of_error {e : Fault} (h : Serves offers s (.error e)) :
    ∃ o ∈ offers, o.lowered.outcome = .error e := by
  generalize hr : (Except.error e : Except Fault Session) = r at h
  induction h with
  | done s => cases hr
  | note n _ ih => exact ih hr
  | serve _ _ ih =>
    obtain ⟨o, ho, he⟩ := ih hr
    exact ⟨o, List.mem_cons_of_mem _ ho, he⟩
  | @stop o _ _ _ hs =>
    cases hr
    exact ⟨o, List.mem_cons_self, serve_eq_error hs⟩

/-- A step for each item of a list makes the offers of all items. -/
theorem foldlM {α : Type} {c : Setting} {add : Session → α → Except Fault Session}
    {offersOf : α → List Offer}
    (hadd : ∀ s a, s.setting = c → Serves (offersOf a) s (add s a)) :
    ∀ (l : List α) (s : Session), s.setting = c → Serves (l.flatMap offersOf) s (l.foldlM add s)
  | [], s, _ => .done s
  | a :: l, s, hs => by
    rw [List.foldlM_cons, List.flatMap_cons]
    have hfirst : Serves (offersOf a) s (add s a) := hadd s a hs
    refine hfirst.bind fun s' hs' => foldlM hadd l s' ?_
    rw [hs'] at hfirst
    rw [hfirst.setting, hs]

end Serves

/-- What a session holds after offers, when it held nothing before them. -/
structure Served (c : Setting) (documents : List Document) (offers : List Offer)
    (s : Session) : Prop where
  setting : s.setting = c
  documents : s.documents = documents
  names_nodup : s.names.Nodup
  reached_nodup : s.reached.Nodup
  /-- Every offer could be lowered. -/
  lowered : ∀ o ∈ offers, ∃ x, o.lowered.outcome = .ok x
  /-- The name of every offer is that of an entry, if not of its own. -/
  taken : ∀ o ∈ offers, o.name ∈ s.names
  /-- Every entry is that of an offer. -/
  origin : ∀ e ∈ s.entries, ∃ o ∈ offers, ∃ x, o.lowered.outcome = .ok x ∧
    e = Entry.of o.name x (some o.category)
  reached : ∀ n, n ∈ s.reached ↔ ∃ o ∈ offers, Reaches o.lowered n
  noted : ∀ o ∈ offers, ∀ n, .note n ∈ o.lowered.log → n ∈ s.notes

variable {c : Setting} {documents : List Document} {offers offers' : List Offer}

theorem Served.note (h : Served c documents offers s) (n : Note) :
    Served c documents offers (s.note n) where
  setting := by rw [note_setting, h.setting]
  documents := by rw [note_documents, h.documents]
  names_nodup := by
    rw [names, note_entries]
    exact h.names_nodup
  reached_nodup := by
    rw [note_reached]
    exact h.reached_nodup
  lowered := h.lowered
  taken := by
    rw [names, note_entries]
    exact h.taken
  origin := by
    rw [note_entries]
    exact h.origin
  reached := by
    rw [note_reached]
    exact h.reached
  noted o ho m hm := (mem_note_notes n).mpr (.inl (h.noted o ho m hm))

/-- **One more offer.** -/
theorem Served.serve (h : Served c documents offers s) {o : Offer} (hs : s.serve o = .ok s') :
    Served c documents (offers ++ [o]) s' := by
  obtain ⟨x, hx, rfl⟩ := serve_eq_ok.mp hs
  have habs := absorbs s o.lowered.log
  have hnames : (s.absorb o.lowered.log).names = s.names := by rw [names, habs.entries, names]
  constructor
  · rw [addEntry_setting, habs.setting, h.setting]
  · rw [addEntry_documents, habs.documents, h.documents]
  · exact nodup_names_addEntry (by rw [hnames]; exact h.names_nodup) _ _ _
  · rw [addEntry_reached]
    exact habs.nodup h.reached_nodup
  · intro p hp
    rcases List.mem_append.mp hp with hp | hp
    · exact h.lowered p hp
    · rw [List.mem_singleton.mp hp]
      exact ⟨x, hx⟩
  · intro p hp
    rw [mem_names_addEntry, hnames]
    exact (List.mem_append.mp hp).imp (h.taken p) fun hp => by rw [List.mem_singleton.mp hp]
  · intro e he
    rw [addEntry_entries, habs.entries] at he
    have hold : e ∈ s.entries → ∃ p ∈ offers ++ [o], ∃ y, p.lowered.outcome = .ok y ∧
        e = Entry.of p.name y (some p.category) := by
      intro he
      obtain ⟨p, hp, y, hy⟩ := h.origin e he
      exact ⟨p, List.mem_append_left _ hp, y, hy⟩
    split at he
    · exact hold he
    · rcases List.mem_append.mp he with he | he
      · exact hold he
      · exact ⟨o, List.mem_append_right _ (List.mem_singleton_self o), x, hx,
          List.mem_singleton.mp he⟩
  · intro n
    rw [addEntry_reached, habs.reached, h.reached]
    simp [or_and_right, exists_or]
  · intro p hp n hn
    refine notes_subset_addEntry _ _ _ ((habs.notes n).mpr ?_)
    rcases List.mem_append.mp hp with hp | hp
    · exact .inl (h.noted p hp n hn)
    · rw [List.mem_singleton.mp hp] at hn
      exact .inr hn

/-- **All offers that are made are served.** -/
theorem Serves.served (h : Serves offers' s (.ok s')) (hs : Served c documents offers s) :
    Served c documents (offers ++ offers') s' := by
  generalize hr : (Except.ok s' : Except Fault Session) = r at h
  induction h generalizing offers with
  | done s =>
    rw [Except.ok.inj hr, List.append_nil]
    exact hs
  | note n _ ih => exact ih (hs.note n) hr
  | serve hserve _ ih =>
    have hnext := ih (hs.serve hserve) hr
    rwa [List.append_assoc] at hnext
  | stop _ => cases hr

end Session

/-! ## The offers of a compilation -/

/-- The offer of an enum. -/
def enumOffers (t : NamedType) : List Offer :=
  match t.shape with
  | .enum values => [⟨t.name, "enum", pure (.enum (values.map Value.str) t.description)⟩]
  | _ => []

/-- The offer of an input object. -/
def inputOffers (c : Setting) (t : NamedType) : List Offer :=
  if t.kind == .inputObject then [⟨t.name, "input", Lowering.inputObject c t⟩] else []

/-- The offer of a fragment. -/
def fragmentOffers (c : Setting) (f : Fragment) : List Offer :=
  match c.system.find? f.condition with
  | none => []
  | some t => [⟨Name.fragmentType f.name, "fragment",
      Lowering.selection c (.fragment f.name) [f.name] t f.selections⟩]

/-- The offers of an operation. -/
def operationOffers (c : Setting) (op : Operation) : List Offer :=
  match op.name with
  | none => []
  | some name =>
    match c.system.root? op.kind with
    | none => []
    | some root =>
      let place := Place.operation op.kind name
      (if op.inputs.isEmpty then []
        else [⟨Name.variablesType op.kind name, "variables", Lowering.inputs c place op.inputs⟩])
      ++ [⟨Name.responseType op.kind name, "response",
        Lowering.selection c place [] root op.selections⟩]

/-- The offer of a type that was reached. -/
def componentOffers (c : Setting) (name : String) : List Offer :=
  match c.system.find? name with
  | none => []
  | some t => [⟨name, "component", Lowering.component c t⟩]

/-- The offers of a compilation before those of the types that were reached. -/
def firstOffers (c : Setting) (documents : List Document) : List Offer :=
  let types := c.system.types.filter (!·.isReserved)
  types.flatMap enumOffers ++ types.flatMap (inputOffers c)
    ++ c.fragments.flatMap (fragmentOffers c)
    ++ (documents.flatMap Document.operations).flatMap (operationOffers c)

namespace Session

variable {c : Setting} {s : Session}

theorem addEnum_serves (s : Session) (t : NamedType) :
    Serves (enumOffers t) s (.ok (s.addEnum t)) := by
  unfold enumOffers addEnum
  cases t.shape with
  | enum values => exact .single s _
  | _ => exact .done s

/-- An enum cannot fail, so the steps for enums are a plain fold. -/
theorem addEnums_serves (types : List NamedType) (s : Session) :
    Serves (types.flatMap enumOffers) s (.ok (types.foldl addEnum s)) := by
  have h := Serves.foldlM (c := s.setting) (fun s t _ => addEnum_serves s t) types s rfl
  rwa [show (types.foldlM (fun s t => Except.ok (addEnum s t)) s : Except Fault Session) =
    .ok (types.foldl addEnum s) from List.foldlM_pure] at h

theorem addInput_serves (s : Session) (t : NamedType) (hs : s.setting = c) :
    Serves (inputOffers c t) s (s.addInput t) := by
  unfold inputOffers addInput
  rw [hs]
  split
  · exact .single s _
  · exact .done s

theorem addFragment_serves (s : Session) (f : Fragment) (hs : s.setting = c) :
    Serves (fragmentOffers c f) s (s.addFragment f) := by
  have hfind : s.system.find? f.condition = c.system.find? f.condition := by rw [← hs]; rfl
  unfold fragmentOffers addFragment
  rw [hs, hfind]
  cases c.system.find? f.condition with
  | none => exact .note _ (.done _)
  | some t => exact .single s _

theorem addOperation_serves (s : Session) (op : Operation) (hs : s.setting = c) :
    Serves (operationOffers c op) s (s.addOperation op) := by
  have hroot : s.system.root? op.kind = c.system.root? op.kind := by rw [← hs]; rfl
  unfold operationOffers addOperation
  rw [hroot]
  cases op.name with
  | none => exact .note _ (.done _)
  | some name =>
    cases c.system.root? op.kind with
    | none => exact .note _ (.done _)
    | some root =>
      dsimp only
      rw [hs]
      split
      · rw [List.nil_append, ← hs]
        exact .single s _
      · have hvariables := Serves.single s ⟨Name.variablesType op.kind name, "variables",
          Lowering.inputs c (.operation op.kind name) op.inputs⟩
        refine hvariables.bind fun s' hs' => ?_
        rw [hs'] at hvariables
        rw [hvariables.setting, hs]
        exact .single s' _

theorem addComponent_serves (s : Session) (name : String) (hs : s.setting = c) :
    Serves (componentOffers c name) s (s.addComponent name) := by
  have hfind : s.system.find? name = c.system.find? name := by rw [← hs]; rfl
  unfold componentOffers addComponent
  rw [hs, hfind]
  cases c.system.find? name with
  | none => exact .done s
  | some t => exact .single s _

/-- A compilation up to the types that were reached. -/
def prepare (s : Session) : Except Fault Session := do
  let s := s.findFragments
  let types := s.system.types.filter (!·.isReserved)
  let s := types.foldl addEnum s
  let s ← types.foldlM addInput s
  let s ← s.fragments.foldlM addFragment s
  (s.documents.flatMap Document.operations).foldlM addOperation s

theorem run_eq (s : Session) : s.run = s.prepare >>= fun q =>
    addComponents ((q.system.types.flatMap NamedType.typeNames).length + q.reached.length + 1) 0 q := by
  unfold run prepare
  simp only [bind_assoc]

/-- A fragment whose name is there already is never found. -/
theorem fragment?_append_cons {fs rest : List Fragment} {f : Fragment}
    (h : fs.any (·.name == f.name) = true) (name : String) :
    Selection.fragment? (fs ++ f :: rest) name = Selection.fragment? (fs ++ rest) name := by
  unfold Selection.fragment?
  rw [List.find?_append, List.find?_append, List.find?_cons]
  rcases hfind : fs.find? (·.name == name) with _ | g
  · have hne : (f.name == name) = false := by
      obtain ⟨g, hg, hname⟩ := List.any_eq_true.mp h
      rw [← beq_iff_eq.mp hname]
      simpa using List.find?_eq_none.mp hfind g hg
    simp only [hne]
  · rw [hfind, Option.some_or, Option.some_or]

/-- Finding fragments only adds fragments and notes; of each name the first is kept. -/
theorem findFragments_spec (s : Session) : s.findFragments.system = s.system ∧
    s.findFragments.scalars = s.scalars ∧ s.findFragments.documents = s.documents ∧
    s.findFragments.entries = s.entries ∧ s.findFragments.reached = s.reached ∧
    ∀ name, Selection.fragment? s.findFragments.fragments name =
      Selection.fragment? (s.fragments ++ s.documents.flatMap Document.fragments) name := by
  unfold findFragments
  generalize s.documents.flatMap Document.fragments = fs
  induction fs generalizing s with
  | nil => simp
  | cons f fs ih =>
    rw [List.foldl_cons]
    split
    · rename_i hold
      obtain ⟨h₁, h₂, h₃, h₄, h₅, h₆⟩ := ih (s.note (.repeatedFragment f.name))
      have hsetting := note_setting (s := s) (.repeatedFragment f.name)
      refine ⟨h₁.trans (congrArg Setting.system hsetting),
        h₂.trans (congrArg Setting.scalars hsetting), h₃.trans (note_documents _),
        h₄.trans (note_entries _), h₅.trans (note_reached _), fun name => ?_⟩
      rw [h₆, fragment?_append_cons hold]
      exact congrArg (fun c : Setting => Selection.fragment? (c.fragments ++ fs) name) hsetting
    · obtain ⟨h₁, h₂, h₃, h₄, h₅, h₆⟩ := ih { s with fragments := s.fragments ++ [f] }
      refine ⟨h₁, h₂, h₃, h₄, h₅, fun name => ?_⟩
      rw [h₆, List.append_assoc]
      rfl

/-- **Up to the types that were reached, a compilation makes its first offers.** -/
theorem prepare_serves (s : Session) : Serves (firstOffers s.findFragments.setting s.documents)
    s.findFragments s.prepare := by
  obtain ⟨-, -, hdocuments, -⟩ := findFragments_spec s
  generalize hs₀ : s.findFragments = s₀ at hdocuments
  generalize htypes : s₀.system.types.filter (!·.isReserved) = types
  have henums := addEnums_serves types s₀
  have hprepare : s.prepare = (Except.ok (types.foldl addEnum s₀) >>= fun s => do
      let s ← types.foldlM addInput s
      let s ← s.fragments.foldlM addFragment s
      (s.documents.flatMap Document.operations).foldlM addOperation s) := by
    rw [prepare, hs₀, htypes]
    rfl
  rw [hprepare, firstOffers]
  simp only [List.append_assoc]
  rw [show s₀.setting.system.types = s₀.system.types from rfl, htypes]
  refine henums.bind fun s₁ h₁ => ?_
  rw [h₁] at henums
  have hinputs := Serves.foldlM (c := s₀.setting) addInput_serves types s₁ henums.setting
  refine hinputs.bind fun s₂ h₂ => ?_
  rw [h₂] at hinputs
  have hsetting₂ : s₂.setting = s₀.setting := hinputs.setting.trans henums.setting
  have hfragments := Serves.foldlM (c := s₀.setting) addFragment_serves s₂.fragments s₂ hsetting₂
  rw [show s₀.setting.fragments = s₂.fragments from congrArg Setting.fragments hsetting₂.symm]
  refine hfragments.bind fun s₃ h₃ => ?_
  rw [h₃] at hfragments
  have hdocuments₃ : s₃.documents = s.documents := by
    rw [hfragments.documents, hinputs.documents, henums.documents, hdocuments]
  rw [hdocuments₃]
  exact Serves.foldlM addOperation_serves _ s₃ (hfragments.setting.trans hsetting₂)

end Session

end SchemaForge.GraphQL
