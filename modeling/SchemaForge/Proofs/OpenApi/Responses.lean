import Mathlib.Data.List.Basic
import Mathlib.Data.List.Nodup
import Mathlib.Data.List.Perm.Basic
import SchemaForge.OpenApi.Operation
import SchemaForge.Proofs.Value.Mapping

/-!
# Responses to a success

The schema of the response to a success is that of the least status that has one, in whatever order
the responses are listed.

* `Operation.Chooses`: the schema that a content is taken to have; **`chooses_mediaSchema?`**.
* `Operation.Gives`: what a response gives: a schema, nothing, or the end of the step.
* `Operation.Decided`: what the least status decides that does not give nothing.
* **`Operation.firstSchema?_of_gives`**, `firstSchema?_of_nothing`: one response of the search;
  `exists_gives_first`: where the search ends.
* **`Operation.successSchema_decided`**: the search through the responses, listed in any order;
  `successSchema_passes`: a schema that is passed over, and a content that ends the step.
-/

namespace SchemaForge

/-! ## Parts of texts and mappings -/

theorem Text.occursIn_iff {part : List Char} : ∀ {cs : List Char},
    Text.occursIn part cs = true ↔ part <:+: cs
  | [] => by rw [occursIn, List.isEmpty_iff, List.infix_nil]
  | c :: cs => by
    rw [occursIn, Bool.or_eq_true, List.isPrefixOf_iff_prefix, occursIn_iff, List.infix_cons_iff]

namespace Mapping

theorem insert_of_not_mem {k : String} {v : Value} {m : Mapping} (h : .str k ∉ m.map (·.1)) :
    m.insert (.str k) v = m ++ [(.str k, v)] := by
  induction m with
  | nil => rfl
  | cons e m ih =>
    rw [List.map_cons, List.mem_cons, not_or] at h
    rw [insert_cons, if_neg fun hs => h.1 (sameKey_str.mp hs).symm, ih h.2]
    rfl

/-- Entries with distinct texts as keys are kept as they are. -/
theorem foldl_insert_str : ∀ {l : List (String × Value)} {m : Mapping},
    (m.map (·.1) ++ l.map fun e => Atom.str e.1).Nodup →
      (l.map fun e => (Atom.str e.1, e.2)).foldl (fun m e => m.insert e.1 e.2) m =
        m ++ l.map fun e => (Atom.str e.1, e.2)
  | [], m, _ => (List.append_nil m).symm
  | (k, v) :: l, m, h => by
    have hfresh : .str k ∉ m.map (·.1) := fun hm =>
      (List.nodup_append.mp h).2.2 _ hm _ List.mem_cons_self rfl
    rw [List.map_cons, List.foldl_cons, insert_of_not_mem hfresh, foldl_insert_str]
    · simp
    · simpa using h

end Mapping

namespace OpenApi.Operation

variable {document response content : Value} {responses listed : Mapping} {code : Atom}

/-! ## Contents -/

/-- The media types of a content that have a schema, null or not. -/
def schemasOf (content : Mapping) : List (Atom × Value) :=
  content.filterMap fun entry =>
    match entry.2 with
    | .map media => (Mapping.get? media "schema").map fun schema => (entry.1, schema)
    | _ => none

theorem withSchema_eq : ∀ content : Mapping, withSchema content = schemasOf content
  | [] => rfl
  | (mediaType, media) :: content => by
    have ih := withSchema_eq content
    unfold schemasOf at ih ⊢
    cases media with
    | map media =>
      rcases hs : Mapping.get? media "schema" with _ | schema <;> simp [withSchema, hs, ih]
    | atom | list => simp [withSchema, ih]

/-- A media type that is a text without `json` in it. -/
def Plain (mediaType : Atom) : Prop :=
  ∃ name, mediaType = .str name ∧ ¬ "json".toList <:+: name.toList

/-- The schema that a content is taken to have: that of `application/json`, else of the first media
type with `json` in its name, else of the first one. A media type that is no text cannot be looked
into. -/
inductive Chooses : Value → Except Fault (Option Value) → Prop
  | other {v : Value} : (∀ content, v ≠ .map content) → Chooses v (.ok none)
  | bare {content : Mapping} : schemasOf content = [] → Chooses (.map content) (.ok none)
  | json {content : Mapping} {pre post : List (Atom × Value)} {schema : Value} :
    schemasOf content = pre ++ (.str "application/json", schema) :: post →
    (∀ m ∈ pre, m.1 ≠ .str "application/json") → Chooses (.map content) (.ok (some schema))
  | likeJson {content : Mapping} {pre post : List (Atom × Value)} {name : String} {schema : Value} :
    (∀ m ∈ schemasOf content, m.1 ≠ .str "application/json") →
    schemasOf content = pre ++ (.str name, schema) :: post → "json".toList <:+: name.toList →
    (∀ m ∈ pre, Plain m.1) → Chooses (.map content) (.ok (some schema))
  | first {content : Mapping} {mediaType : Atom} {rest : List (Atom × Value)} {schema : Value} :
    (∀ m ∈ schemasOf content, Plain m.1) → schemasOf content = (mediaType, schema) :: rest →
    Chooses (.map content) (.ok (some schema))
  | unreadable {content : Mapping} {pre post : List (Atom × Value)} {mediaType : Atom}
    {schema : Value} : (∀ m ∈ schemasOf content, m.1 ≠ .str "application/json") →
    schemasOf content = pre ++ (mediaType, schema) :: post → (∀ name, mediaType ≠ .str name) →
    (∀ m ∈ pre, Plain m.1) → Chooses (.map content) (.error .wrongType)

theorem Plain.ne_json {mediaType : Atom} (h : Plain mediaType) :
    mediaType ≠ .str "application/json" := by
  obtain ⟨name, rfl, hname⟩ := h
  rintro ⟨⟩
  exact hname ⟨"application/".toList, [], rfl⟩

theorem firstJson?_plain {media : List (Atom × Value)} : ∀ {pre : List (Atom × Value)},
    (∀ m ∈ pre, Plain m.1) → firstJson? (pre ++ media) = firstJson? media
  | [], _ => rfl
  | (mediaType, schema) :: pre, h => by
    rw [List.forall_mem_cons] at h
    obtain ⟨⟨name, rfl, hname⟩, h⟩ := h
    rw [List.cons_append, firstJson?, if_neg (mt Text.occursIn_iff.mp hname), firstJson?_plain h]

/-- All media types are plain, or one is the first that is not: it has `json` in it or is no
text. -/
theorem plain_or_first : ∀ media : List (Atom × Value), (∀ m ∈ media, Plain m.1) ∨
    ∃ pre m post, media = pre ++ m :: post ∧ (∀ m ∈ pre, Plain m.1) ∧
      ((∃ name, m.1 = .str name ∧ "json".toList <:+: name.toList) ∨ ∀ name, m.1 ≠ .str name)
  | [] => .inl nofun
  | (mediaType, schema) :: media => by
    by_cases hm : Plain mediaType
    · rcases plain_or_first media with h | ⟨pre, m, post, rfl, hpre, h⟩
      · exact .inl (List.forall_mem_cons.mpr ⟨hm, h⟩)
      · exact .inr ⟨_ :: pre, m, post, rfl, List.forall_mem_cons.mpr ⟨hm, hpre⟩, h⟩
    · refine .inr ⟨[], _, media, rfl, nofun, ?_⟩
      by_cases hs : ∃ name, mediaType = .str name
      · obtain ⟨name, rfl⟩ := hs
        exact .inl ⟨name, rfl, by_contra fun hn => hm ⟨name, rfl, hn⟩⟩
      · exact .inr fun name h => hs ⟨name, h⟩

theorem mediaSchema?_map (content : Mapping) : mediaSchema? (.map content) =
    match (schemasOf content).find? (·.1 == .str "application/json") with
    | some (_, schema) => .ok (some schema)
    | none =>
      match firstJson? (schemasOf content) with
      | .ok none => .ok ((schemasOf content).head?.map (·.2))
      | found => found := by
  rw [← withSchema_eq]
  rfl

theorem find?_json_eq_none {media : List (Atom × Value)} :
    media.find? (·.1 == .str "application/json") = none ↔
      ∀ m ∈ media, m.1 ≠ .str "application/json" := by
  simp

/-- **The schema of a content is the one that is chosen.** -/
theorem mediaSchema?_of_chooses {r : Except Fault (Option Value)} (h : Chooses content r) :
    mediaSchema? content = r := by
  cases h with
  | @other v hv =>
    unfold mediaSchema?
    split
    · exact absurd rfl (hv _)
    · rfl
  | bare hs =>
    rw [mediaSchema?_map, hs]
    rfl
  | json hs hpre =>
    have hfind := find?_json_eq_none.mpr hpre
    rw [mediaSchema?_map, hs, List.find?_append, hfind]
    simp
  | likeJson hno hs hname hpre =>
    rw [mediaSchema?_map, find?_json_eq_none.mpr hno, hs, firstJson?_plain hpre, firstJson?,
      if_pos (Text.occursIn_iff.mpr hname)]
  | first hall hs =>
    have hjson := @firstJson?_plain [] _ hall
    rw [List.append_nil] at hjson
    rw [mediaSchema?_map, find?_json_eq_none.mpr fun m hm => (hall m hm).ne_json, hjson, hs]
    rfl
  | @unreadable _ pre post mediaType schema hno hs htext hpre =>
    have hstop : firstJson? ((mediaType, schema) :: post) = .error .wrongType := by
      cases mediaType with
      | str name => exact absurd rfl (htext name)
      | _ => rfl
    rw [mediaSchema?_map, find?_json_eq_none.mpr hno, hs, firstJson?_plain hpre, hstop]

theorem exists_chooses (content : Value) : ∃ r, Chooses content r := by
  cases content with
  | atom | list => exact ⟨_, .other nofun⟩
  | map content =>
    rcases hj : (schemasOf content).find? (·.1 == .str "application/json") with _ | m
    · have hno := find?_json_eq_none.mp hj
      rcases plain_or_first (schemasOf content) with hall | ⟨pre, m, post, hs, hpre, h⟩
      · rcases hs : schemasOf content with _ | ⟨m, rest⟩
        · exact ⟨_, .bare hs⟩
        · exact ⟨_, .first hall hs⟩
      · obtain ⟨mediaType, schema⟩ := m
        rcases h with ⟨name, rfl, hname⟩ | htext
        · exact ⟨_, .likeJson hno hs hname hpre⟩
        · exact ⟨_, .unreadable hno hs htext hpre⟩
    · obtain ⟨hm, pre, post, hs, hpre⟩ := List.find?_eq_some_iff_append.mp hj
      obtain ⟨mediaType, schema⟩ := m
      obtain rfl := beq_iff_eq.mp hm
      exact ⟨_, .json hs fun m hm => by simpa using hpre m hm⟩

theorem chooses_mediaSchema? (content : Value) : Chooses content (mediaSchema? content) := by
  obtain ⟨r, h⟩ := exists_chooses content
  rwa [mediaSchema?_of_chooses h]

/-! ## Responses -/

/-- What a response gives: the schema of its content, or nothing if it has none or one that is null.
A reference without a value and a media type that is no text end the step. -/
inductive Gives (document response : Value) : Except Stop (Option Value) → Prop
  | stop {stop : Stop} : Pointer.resolve document response = .error stop →
    Gives document response (.error stop)
  | other {v : Value} : Pointer.resolve document response = .ok v → (∀ e, v ≠ .map e) →
    Gives document response (.ok none)
  | schema {e : Mapping} {schema : Value} : Pointer.resolve document response = .ok (.map e) →
    Chooses (e.getD "content") (.ok (some schema)) → schema.isNull = false →
    Gives document response (.ok (some schema))
  | null {e : Mapping} {schema : Value} : Pointer.resolve document response = .ok (.map e) →
    Chooses (e.getD "content") (.ok (some schema)) → schema.isNull = true →
    Gives document response (.ok none)
  | bare {e : Mapping} : Pointer.resolve document response = .ok (.map e) →
    Chooses (e.getD "content") (.ok none) → Gives document response (.ok none)
  | fault {e : Mapping} {f : Fault} : Pointer.resolve document response = .ok (.map e) →
    Chooses (e.getD "content") (.error f) → Gives document response (.error (.fault f))

theorem exists_gives (document response : Value) : ∃ r, Gives document response r := by
  rcases hr : Pointer.resolve document response with stop | v
  · exact ⟨_, .stop hr⟩
  · cases v with
    | atom | list => exact ⟨_, .other hr nofun⟩
    | map e =>
      obtain ⟨r, h⟩ := exists_chooses (Mapping.getD e "content")
      rcases r with f | _ | schema
      · exact ⟨_, .fault hr h⟩
      · exact ⟨_, .bare hr h⟩
      · rcases hn : schema.isNull with _ | _
        · exact ⟨_, .schema hr h hn⟩
        · exact ⟨_, .null hr h hn⟩

theorem firstSchema?_cons {e : Mapping} (status : String) (rest : List (String × Value))
    (hr : Pointer.resolve document response = .ok (.map e)) :
    firstSchema? document ((status, response) :: rest) =
      match mediaSchema? (e.getD "content") with
      | .error f => .error (.fault f)
      | .ok found =>
        match present found with
        | some schema => .ok (some schema)
        | none => firstSchema? document rest := by
  rw [firstSchema?, hr]
  simp only [bind, Except.bind]
  cases mediaSchema? (e.getD "content") <;> rfl

/-- **A response that gives nothing is passed over.** -/
theorem firstSchema?_of_nothing (status : String) (rest : List (String × Value))
    (h : Gives document response (.ok none)) :
    firstSchema? document ((status, response) :: rest) = firstSchema? document rest := by
  cases h with
  | @other v hr hv =>
    rw [firstSchema?, hr]
    cases v with
    | map e => exact absurd rfl (hv e)
    | atom | list => rfl
  | @null e schema hr hc hn =>
    have hpresent : present (some schema) = none := by simp [present, hn]
    rw [firstSchema?_cons status rest hr, mediaSchema?_of_chooses hc]
    dsimp only
    rw [hpresent]
  | bare hr hc =>
    rw [firstSchema?_cons status rest hr, mediaSchema?_of_chooses hc]
    rfl

/-- **A response that gives anything else ends the search.** -/
theorem firstSchema?_of_gives (status : String) (rest : List (String × Value))
    {r : Except Stop (Option Value)} (h : Gives document response r) (hne : r ≠ .ok none) :
    firstSchema? document ((status, response) :: rest) = r := by
  cases h with
  | stop hr =>
    rw [firstSchema?, hr]
    rfl
  | @schema e schema hr hc hn =>
    have hpresent : present (some schema) = some schema := by simp [present, hn]
    rw [firstSchema?_cons status rest hr, mediaSchema?_of_chooses hc]
    dsimp only
    rw [hpresent]
  | fault hr hc => rw [firstSchema?_cons status rest hr, mediaSchema?_of_chooses hc]
  | other | null | bare => exact absurd rfl hne

theorem firstSchema?_append {l : List (String × Value)} : ∀ {pre : List (String × Value)},
    (∀ x ∈ pre, Gives document x.2 (.ok none)) →
      firstSchema? document (pre ++ l) = firstSchema? document l
  | [], _ => rfl
  | x :: pre, h => by
    rw [List.forall_mem_cons] at h
    rw [List.cons_append, firstSchema?_of_nothing _ _ h.1, firstSchema?_append h.2]

/-- All responses give nothing, or one is the first that does not. -/
theorem exists_gives_first (document : Value) : ∀ l : List (String × Value),
    (∀ x ∈ l, Gives document x.2 (.ok none)) ∨ ∃ pre x post r, l = pre ++ x :: post ∧
      (∀ y ∈ pre, Gives document y.2 (.ok none)) ∧ Gives document x.2 r ∧ r ≠ .ok none
  | [] => .inl nofun
  | x :: l => by
    obtain ⟨r, hr⟩ := exists_gives document x.2
    by_cases hnone : r = .ok none
    · subst hnone
      rcases exists_gives_first document l with h | ⟨pre, y, post, r, rfl, hpre, h⟩
      · exact .inl (List.forall_mem_cons.mpr ⟨hr, h⟩)
      · exact .inr ⟨x :: pre, y, post, r, rfl, List.forall_mem_cons.mpr ⟨hr, hpre⟩, h⟩
    · exact .inr ⟨[], x, l, r, rfl, nofun, hr, hnone⟩

/-! ## The least status -/

/-- Whether a key among responses is the status of a success: its text begins with `2`. -/
def IsSuccess (code : Atom) : Prop := ['2'] <+: code.display.toList

/-- What responses decide: nothing, if no success gives anything, and otherwise what the success of
the least status gives that does not give nothing. -/
inductive Decided (document : Value) (responses : Mapping) : Except Stop (Option Value) → Prop
  | nothing : (∀ x ∈ responses, IsSuccess x.1 → Gives document x.2 (.ok none)) →
    Decided document responses (.ok none)
  | least {x : Atom × Value} {r : Except Stop (Option Value)} : x ∈ responses → IsSuccess x.1 →
    Gives document x.2 r → r ≠ .ok none →
    (∀ y ∈ responses, IsSuccess y.1 → y.1.display < x.1.display → Gives document y.2 (.ok none)) →
    Decided document responses r

theorem Decided.perm {r : Except Stop (Option Value)} (h : Decided document responses r)
    (hperm : listed.Perm responses) : Decided document listed r := by
  cases h with
  | nothing hall => exact .nothing fun x hx => hall x (hperm.mem_iff.mp hx)
  | least hx hs hr hne hall =>
    exact .least (hperm.mem_iff.mpr hx) hs hr hne fun y hy => hall y (hperm.mem_iff.mp hy)

theorem byStatus_eq (hd : (responses.map fun x => x.1.display).Nodup) :
    byStatus responses = responses.map fun x => (x.1.display, x.2) := by
  have hstr : ((responses.map fun x => x.1.display).map Atom.str).Nodup :=
    hd.map fun a b h => by
      cases h
      rfl
  have hfold := @Mapping.foldl_insert_str (responses.map fun x => (x.1.display, x.2)) []
    (by simpa [Function.comp_def] using hstr)
  rw [List.map_map, List.nil_append] at hfold
  unfold byStatus Mapping.ofEntries
  exact (congrArg (List.map _) hfold).trans (by simp [Function.comp_def, Atom.display])

theorem mem_successes (hd : (responses.map fun x => x.1.display).Nodup) {y : String × Value} :
    y ∈ successes responses ↔ ∃ x ∈ responses, IsSuccess x.1 ∧ (x.1.display, x.2) = y := by
  rw [successes, byStatus_eq hd, List.mem_mergeSort, List.mem_filter, List.mem_map]
  constructor
  · rintro ⟨⟨x, hx, rfl⟩, hs⟩
    exact ⟨x, hx, List.isPrefixOf_iff_prefix.mp hs, rfl⟩
  · rintro ⟨x, hx, hs, rfl⟩
    exact ⟨⟨x, hx, rfl⟩, List.isPrefixOf_iff_prefix.mpr hs⟩

/-- The successes stand in the order of their statuses, no two of which are equal. -/
theorem pairwise_successes (hd : (responses.map fun x => x.1.display).Nodup) :
    (successes responses).Pairwise fun a b => a.1 < b.1 := by
  have hperm : (successes responses).Perm
      ((byStatus responses).filter fun x => ['2'].isPrefixOf x.1.toList) :=
    List.mergeSort_perm _ _
  have hnodup : ((successes responses).map (·.1)).Nodup := by
    have hall : ((byStatus responses).map (·.1)).Nodup := by
      rw [byStatus_eq hd, List.map_map]
      exact hd
    exact (hperm.map (·.1)).nodup_iff.mpr (hall.sublist (List.filter_sublist.map _))
  have hsorted : (successes responses).Pairwise fun a b => a.1 ≤ b.1 := by
    have h := @List.pairwise_mergeSort _ (fun a b : String × Value => decide (a.1 ≤ b.1))
      (fun a b c hab hbc => by
        simpa using String.le_trans (by simpa using hab) (by simpa using hbc))
      (fun a b => by simpa using String.le_total a.1 b.1)
      ((byStatus responses).filter fun x => ['2'].isPrefixOf x.1.toList)
    exact h.imp fun hab => by simpa using hab
  refine hsorted.imp₂ (fun a b hle hne => ?_) (List.pairwise_map.mp hnodup)
  by_contra hlt
  exact hne (String.le_antisymm hle (String.not_lt.mp hlt))

theorem successSchema?_map (document : Value) : ∀ responses : Mapping,
    successSchema? document (.map responses) = firstSchema? document (successes responses)
  | [] => by
    simp [successSchema?, Value.isGiven, successes, byStatus, Mapping.ofEntries, firstSchema?]
  | _ :: _ => rfl

/-- **What is found is what the responses decide.** -/
theorem successSchema?_of_decided (hd : (responses.map fun x => x.1.display).Nodup)
    {r : Except Stop (Option Value)} (h : Decided document responses r) :
    successSchema? document (.map responses) = r := by
  rw [successSchema?_map]
  cases h with
  | nothing hall =>
    have hpass : ∀ y ∈ successes responses, Gives document y.2 (.ok none) := fun y hy => by
      obtain ⟨x, hx, hs, rfl⟩ := (mem_successes hd).mp hy
      exact hall x hx hs
    have hend := @firstSchema?_append document [] _ hpass
    rwa [List.append_nil] at hend
  | @least x r hx hs hr hne hall =>
    obtain ⟨pre, post, hsplit⟩ := List.append_of_mem ((mem_successes hd).mpr ⟨x, hx, hs, rfl⟩)
    have hsorted := pairwise_successes hd
    rw [hsplit, List.pairwise_append] at hsorted
    -- what stands before the status in the sorted list is less, so it gives nothing
    have hpre : ∀ y ∈ pre, Gives document y.2 (.ok none) := by
      intro y hy
      have hmem : y ∈ successes responses := hsplit ▸ List.mem_append_left _ hy
      obtain ⟨z, hz, hzs, rfl⟩ := (mem_successes hd).mp hmem
      exact hall z hz hzs (hsorted.2.2 _ hy _ List.mem_cons_self)
    rw [hsplit, firstSchema?_append hpre, firstSchema?_of_gives _ _ hr hne]

theorem exists_decided (hd : (responses.map fun x => x.1.display).Nodup) :
    ∃ r, Decided document responses r := by
  rcases exists_gives_first document (successes responses) with
    hall | ⟨pre, y, post, r, hsplit, hpre, hr, hne⟩
  · exact ⟨_, .nothing fun x hx hs => hall _ ((mem_successes hd).mpr ⟨x, hx, hs, rfl⟩)⟩
  · have hmem : y ∈ successes responses := by simp [hsplit]
    obtain ⟨x, hx, hs, rfl⟩ := (mem_successes hd).mp hmem
    refine ⟨r, .least hx hs hr hne fun z hz hzs hlt => ?_⟩
    have hsorted := pairwise_successes hd
    rw [hsplit, List.pairwise_append, List.pairwise_cons] at hsorted
    have hzmem := (mem_successes hd).mpr ⟨z, hz, hzs, rfl⟩
    rw [hsplit, List.mem_append, List.mem_cons] at hzmem
    rcases hzmem with hz | hz | hz
    · exact hpre _ hz
    · have heq : z.1.display = x.1.display := congrArg Prod.fst hz
      exact absurd (heq ▸ hlt) (String.lt_irrefl _)
    · exact absurd (String.lt_trans hlt (hsorted.2.1.1 _ hz)) (String.lt_irrefl _)

/-- **The response to a success** does not depend on the order in which responses are listed. What
is found is what the least status decides, among those that begin with `2`, that does not give
nothing: the schema of its content, or the end of the step. -/
theorem successSchema_decided (document : Value)
    (hd : (responses.map fun x => x.1.display).Nodup) (hperm : listed.Perm responses) :
    successSchema? document (.map listed) = successSchema? document (.map responses) ∧
      ∀ r, successSchema? document (.map responses) = r ↔ Decided document responses r := by
  obtain ⟨r, hr⟩ := @exists_decided document _ hd
  have hfound := successSchema?_of_decided hd hr
  have hlisted : (listed.map fun x => x.1.display).Nodup := (hperm.map _).nodup_iff.mpr hd
  refine ⟨?_, fun r' => ⟨?_, successSchema?_of_decided hd⟩⟩
  · rw [hfound]
    exact successSchema?_of_decided hlisted (hr.perm hperm)
  · rintro rfl
    rwa [hfound]

/-! ### Responses in two orders, and a schema that is passed over -/

/-- The node of a type. -/
def typeNode (type : String) : Value := .map [(.str "type", .str type)]

/-- A response with schemas for media types. -/
def responseNode (media : List (Atom × Value)) : Value :=
  .map [(.str "content", .map (media.map fun m => (m.1, .map [(.str "schema", m.2)])))]

/-- Responses with a status that is a number and a reference without a value. -/
def petResponses : Mapping :=
  [(.str "default", responseNode [(.str "application/json", typeNode "string")]),
    (.int 204, .map []), (.str "2XX", .map [(.str "$ref", .str "#/missing")]),
    (.int 201, responseNode [(.str "text/plain", typeNode "string"),
      (.str "application/vnd.api+json", typeNode "boolean")])]

/-- The reference does not matter, since `201` comes before `2XX`. -/
theorem successSchema_pets : (petResponses.map fun x => x.1.display).Nodup ∧
    petResponses.reverse.Perm petResponses ∧
    successSchema? .null (.map petResponses.reverse) = .ok (some (typeNode "boolean")) ∧
    Decided .null petResponses (.ok (some (typeNode "boolean"))) := by
  have hd : (petResponses.map fun x => x.1.display).Nodup := by decide
  have hperm : petResponses.reverse.Perm petResponses := List.reverse_perm _
  have hplain : ∀ m ∈ [(Atom.str "text/plain", typeNode "string")], Plain m.1 :=
    List.forall_mem_singleton.mpr ⟨_, rfl, mt Text.occursIn_iff.mpr (by decide)⟩
  have hgives : Gives .null petResponses[3].2 (.ok (some (typeNode "boolean"))) :=
    .schema rfl (.likeJson (by decide) rfl ⟨"application/vnd.api+".toList, [], rfl⟩ hplain) rfl
  have hdecided : Decided .null petResponses (.ok (some (typeNode "boolean"))) := by
    refine .least (List.getElem_mem _) ⟨['0', '1'], rfl⟩ hgives nofun fun y hy _ hlt => ?_
    -- no other status that begins with `2` is less than `201`
    have hnot : ∀ z ∈ petResponses, ¬ z.1.display < "201" := by decide
    exact absurd hlt (hnot y hy)
  obtain ⟨hsame, hiff⟩ := successSchema_decided .null hd hperm
  exact ⟨hd, hperm, hsame.trans ((hiff _).mpr hdecided), hdecided⟩

/-- Responses of which the first has a schema, but none for its first media type. -/
def emptiedResponses : Mapping :=
  [(.str "200", responseNode [(.str "application/json", .null),
      (.str "text/plain", typeNode "string")]),
    (.str "201", responseNode [(.str "application/json", typeNode "boolean")])]

/-- A response with a media type that is no text. -/
def numberedResponses : Mapping :=
  [(.str "200", responseNode [(.int 1, typeNode "string")])]

/-- **A response with a schema is passed over** when the media type that is taken has a null one,
and a media type that is no text ends the step. -/
theorem successSchema_passes :
    successSchema? .null (.map emptiedResponses) = .ok (some (typeNode "boolean")) ∧
    (∃ x ∈ emptiedResponses, IsSuccess x.1 ∧ x.1.display < "201" ∧ ∃ (e content : Mapping),
      Pointer.resolve .null x.2 = .ok (.map e) ∧ e.getD "content" = .map content ∧
      (.str "text/plain", typeNode "string") ∈ schemasOf content) ∧
    successSchema? .null (.map numberedResponses) = .error (.fault .wrongType) := by
  have hempty : Gives .null emptiedResponses[0].2 (.ok none) :=
    .null rfl (.json (show _ = [] ++ _ from rfl) nofun) rfl
  have hflag : Gives .null emptiedResponses[1].2 (.ok (some (typeNode "boolean"))) :=
    .schema rfl (.json (show _ = [] ++ _ from rfl) nofun) rfl
  have hnumber : Gives .null numberedResponses[0].2 (.error (.fault .wrongType)) :=
    .fault rfl (.unreadable (by decide) (show _ = [] ++ _ from rfl) nofun nofun)
  refine ⟨successSchema?_of_decided (by decide) ?_, ?_, successSchema?_of_decided (by decide) ?_⟩
  · refine .least (List.getElem_mem _) ⟨['0', '1'], rfl⟩ hflag nofun fun y hy _ hlt => ?_
    rcases List.mem_pair.mp hy with rfl | rfl
    · exact hempty
    · exact absurd hlt (String.lt_irrefl _)
  · exact ⟨emptiedResponses[0], List.getElem_mem _, ⟨['0', '0'], rfl⟩, by decide, _, _, rfl, rfl,
      List.mem_cons_of_mem _ List.mem_cons_self⟩
  · refine .least (List.getElem_mem _) ⟨['0', '0'], rfl⟩ hnumber nofun fun y hy _ hlt => ?_
    obtain rfl := List.mem_singleton.mp hy
    exact absurd hlt (String.lt_irrefl _)

end OpenApi.Operation

end SchemaForge
