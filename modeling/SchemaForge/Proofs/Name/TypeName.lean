import Mathlib.Data.List.Basic
import SchemaForge.OpenApi.Operation
import SchemaForge.Proofs.Logged

/-!
# Type names

* `Name.isTypeName`: a capital or an underscore, and then letters and digits, in ASCII.
* **`Name.typeOf_isTypeName`**, **`Name.ofPath_isTypeName`**: the names that are made of any text,
  and of a method with any path.
* `OpenApi.Operation.name_isTypeName`, `OpenApi.Operation.entries_names`: the names of an operation
  and of its entries.
-/

namespace SchemaForge

namespace Name

/-- Whether a name is a capital or an underscore, and then letters and digits, in ASCII. -/
def isTypeName (name : String) : Bool :=
  match name.toList with
  | [] => false
  | c :: rest => (c.isUpper || c == '_') && rest.all Char.isAlphanum

theorem isTypeName_iff {name : String} : isTypeName name ↔
    ∃ c rest, name.toList = c :: rest ∧ (c.isUpper ∨ c = '_') ∧ ∀ d ∈ rest, d.isAlphanum := by
  unfold isTypeName
  cases name.toList <;> simp

theorem isTypeName_append {name suffix : String} (h : isTypeName name)
    (hs : ∀ c ∈ suffix.toList, c.isAlphanum) : isTypeName (name ++ suffix) := by
  obtain ⟨c, rest, hname, hc, hrest⟩ := isTypeName_iff.mp h
  refine isTypeName_iff.mpr ⟨c, rest ++ suffix.toList, ?_, hc, fun d hd => ?_⟩
  · rw [String.toList_append, hname, List.cons_append]
  · rcases List.mem_append.mp hd with hd | hd
    · exact hrest d hd
    · exact hs d hd

theorem isAlphanum_of_mem_toString (n : Nat) : ∀ c ∈ (toString n).toList, c.isAlphanum := by
  intro c hc
  rw [show (toString n).toList = Nat.toDigits 10 n from String.toList_ofList] at hc
  have hd := Nat.isDigit_of_mem_toDigits (by decide) (by decide) hc
  simp [Char.isAlphanum, hd]

/-! ## Words -/

/-- A property of ASCII characters that holds of the first 128. -/
theorem of_lt {P : Char → Bool} (h : ∀ n : Fin 128, P (Char.ofNat n) = true) {c : Char}
    (hc : c.toNat < 128) : P c = true := by
  have := h ⟨c.toNat, hc⟩
  rwa [Char.ofNat_toNat] at this

theorem toNat_lt_of_isAlphanum {c : Char} (h : c.isAlphanum) : c.toNat < 128 := by
  change ((decide (c.val ≥ 'A'.val ∧ c.val ≤ 'Z'.val) ||
    (decide (c.val ≥ 'a'.val) && decide (c.val ≤ 'z'.val))) ||
    (decide (c.val ≥ '0'.val) && decide (c.val ≤ '9'.val))) = true at h
  simp only [Bool.or_eq_true, Bool.and_eq_true, decide_eq_true_eq, UInt32.le_iff_toNat_le] at h
  change c.val.toNat < 128
  rcases h with (h | h) | h
  · exact Nat.lt_of_le_of_lt h.2 (by decide)
  · exact Nat.lt_of_le_of_lt h.2 (by decide)
  · exact Nat.lt_of_le_of_lt h.2 (by decide)

theorem upperChar_of_isAlphanum {c : Char} (h : c.isAlphanum) :
    ∃ d, Text.upperChar c = [d] ∧ d.isAlphanum ∧ (d.isUpper || d.isDigit) := by
  have hlt := toNat_lt_of_isAlphanum h
  refine ⟨c.toUpper, by rw [Text.upperChar, if_pos hlt], ?_, ?_⟩
  · have := of_lt (P := fun c => !c.isAlphanum || c.toUpper.isAlphanum) (by decide) hlt
    simpa [h] using this
  · have := of_lt (P := fun c => !c.isAlphanum || (c.toUpper.isUpper || c.toUpper.isDigit))
      (by decide) hlt
    simpa [h] using this

/-- A word: letters and digits, at least one. -/
def IsWord (w : List Char) : Prop := w ≠ [] ∧ ∀ c ∈ w, c.isAlphanum

theorem isWord_of_mem_wordsFrom : ∀ {cs word : List Char}, (∀ c ∈ word, c.isAlphanum) →
    ∀ w ∈ wordsFrom word cs, IsWord w
  | [], word, hw, w, h => by
    rw [wordsFrom] at h
    split at h
    · cases h
    · rename_i hne
      obtain rfl := List.mem_singleton.mp h
      exact ⟨by simpa using hne, by simpa using hw⟩
  | c :: rest, word, hw, w, h => by
    rw [wordsFrom] at h
    split at h
    · rename_i hc
      exact isWord_of_mem_wordsFrom (List.forall_mem_cons.mpr ⟨hc, hw⟩) w h
    · split at h
      · exact isWord_of_mem_wordsFrom (fun _ h => absurd h List.not_mem_nil) w h
      · rename_i hne
        rcases List.mem_cons.mp h with rfl | h
        · exact ⟨by simpa using hne, by simpa using hw⟩
        · exact isWord_of_mem_wordsFrom (fun _ h => absurd h List.not_mem_nil) w h

theorem upperFirst_of_isWord {w : List Char} (h : IsWord w) : ∃ c rest,
    Text.upperFirst w = c :: rest ∧ (c.isUpper || c.isDigit) ∧ ∀ d ∈ c :: rest, d.isAlphanum := by
  obtain ⟨hne, hall⟩ := h
  cases w with
  | nil => exact absurd rfl hne
  | cons c rest =>
    obtain ⟨hc, hrest⟩ := List.forall_mem_cons.mp hall
    obtain ⟨d, hd, hda, hdu⟩ := upperChar_of_isAlphanum hc
    refine ⟨d, rest, by rw [Text.upperFirst, hd]; rfl, hdu, ?_⟩
    exact List.forall_mem_cons.mpr ⟨hda, hrest⟩

/-- The words of a text begin with a capital or a digit, if there are any. -/
theorem words_spec (text : String) : (∀ c ∈ words text, c.isAlphanum) ∧
    ∀ c rest, words text = c :: rest → (c.isUpper || c.isDigit) := by
  have hwords : ∀ w ∈ wordsFrom [] text.toList, IsWord w :=
    isWord_of_mem_wordsFrom fun _ h => absurd h List.not_mem_nil
  unfold words
  constructor
  · intro c hc
    obtain ⟨w, hw, hc⟩ := List.mem_flatMap.mp hc
    obtain ⟨d, rest, hu, -, hall⟩ := upperFirst_of_isWord (hwords w hw)
    exact hall c (hu ▸ hc)
  · intro c rest h
    cases hl : wordsFrom [] text.toList with
    | nil =>
      rw [hl] at h
      cases h
    | cons w ws =>
      obtain ⟨d, tail, hu, hd, -⟩ := upperFirst_of_isWord (hwords w (by rw [hl]; simp))
      rw [hl, List.flatMap_cons, hu, List.cons_append, List.cons.injEq] at h
      exact h.1 ▸ hd

/-! ## Names -/

/-- **The name that is made of any text is a type name.** -/
theorem typeOf_isTypeName (text : String) : isTypeName (typeOf text) := by
  obtain ⟨hall, hfirst⟩ := words_spec text
  unfold typeOf
  split
  · decide
  · rename_i c rest hw
    rw [hw] at hall
    have hc := hfirst c rest hw
    rw [isTypeName_iff]
    split
    · exact ⟨'_', c :: rest, String.toList_ofList, .inr rfl, hall⟩
    · rename_i hd
      refine ⟨c, rest, String.toList_ofList, .inl ?_, (List.forall_mem_cons.mp hall).2⟩
      simpa [hd] using hc

/-- **A method with any path makes a type name.** -/
theorem ofPath_isTypeName {method : String} (h : method ∈ OpenApi.Operation.methods)
    (path : String) : isTypeName (ofPath method path) := by
  have hm : ∀ m ∈ OpenApi.Operation.methods,
      isTypeName (String.ofList (Text.capitalize m.toList)) := by decide
  have hpath : ∀ c ∈ (String.ofList (words path)).toList, c.isAlphanum := by
    rw [String.toList_ofList]
    exact (words_spec path).1
  have happ := isTypeName_append (hm method h) hpath
  rwa [← String.ofList_append] at happ

end Name

namespace OpenApi

/-! ## Names of operations and components -/

theorem Operation.method_mem {paths : Mapping} {op : Operation}
    (h : op ∈ Operation.ofPaths paths) : op.method ∈ Operation.methods := by
  obtain ⟨⟨path, item⟩, -, h⟩ := List.mem_flatMap.mp h
  unfold Operation.ofPath at h
  dsimp only at h
  split at h
  · obtain ⟨method, hm, h⟩ := List.mem_filterMap.mp h
    split at h
    · cases h
      exact hm
    · cases h
  · cases h

theorem Operation.name_isTypeName {op : Operation} (h : op.method ∈ Operation.methods)
    {name : String} (hn : op.name = .ok name) : Name.isTypeName name := by
  unfold Operation.name at hn
  dsimp only at hn
  split at hn
  · split at hn
    · cases hn
      exact Name.typeOf_isTypeName _
    · cases hn
  · split at hn
    · cases hn
      exact Name.ofPath_isTypeName h _
    · cases hn

/-- The entries of an operation go by its name with one of three words behind it. -/
theorem Operation.entries_names {s : Setting} {op : Operation} {es : List Entry}
    (h : (op.entries s).outcome = .ok es) : ∃ name, op.name = .ok name ∧ ∀ e ∈ es,
      (e.name, e.category) ∈ [(name ++ "Params", some "params"), (name ++ "Request", some "input"),
        (name ++ "Response", some "response")] := by
  have entryOf : ∀ {name category node es}, (entryOf s name category node).outcome = .ok es →
      ∀ e ∈ es, e.name = name ∧ e.category = some category := by
    intro name category node es h
    cases node with
    | none =>
      cases h
      exact fun _ h => absurd h List.not_mem_nil
    | some v =>
      obtain ⟨x, -, h⟩ := Logged.outcome_bind_eq_ok.mp h
      cases h
      exact List.forall_mem_singleton.mpr ⟨rfl, rfl⟩
  obtain ⟨name, hname, h⟩ := Logged.outcome_bind_eq_ok.mp h
  obtain ⟨ps, -, h⟩ := Logged.outcome_bind_eq_ok.mp h
  obtain ⟨props, -, h⟩ := Logged.outcome_bind_eq_ok.mp h
  obtain ⟨body, -, h⟩ := Logged.outcome_bind_eq_ok.mp h
  obtain ⟨request, hrequest, h⟩ := Logged.outcome_bind_eq_ok.mp h
  obtain ⟨success, -, h⟩ := Logged.outcome_bind_eq_ok.mp h
  obtain ⟨response, hresponse, h⟩ := Logged.outcome_bind_eq_ok.mp h
  cases h
  refine ⟨name, mapError_eq_ok.mp hname, fun e he => ?_⟩
  rcases List.mem_append.mp he with he | he
  · rcases List.mem_append.mp he with he | he
    · split at he
      · cases he
      · rw [List.mem_singleton.mp he]
        simp [Entry.of]
    · obtain ⟨h₁, h₂⟩ := entryOf hrequest e he
      simp [h₁, h₂]
  · obtain ⟨h₁, h₂⟩ := entryOf hresponse e he
    simp [h₁, h₂]

theorem Operation.entry_name {s : Setting} {op : Operation} {es : List Entry} {e : Entry}
    (hm : op.method ∈ Operation.methods) (h : (op.entries s).outcome = .ok es) (he : e ∈ es) :
    Name.isTypeName e.name ∧ e.category ≠ some "component" := by
  obtain ⟨name, hname, hall⟩ := entries_names h
  have htype := name_isTypeName hm hname
  have hcases := hall e he
  simp only [List.mem_cons, List.not_mem_nil, or_false, Prod.mk.injEq] at hcases
  rcases hcases with ⟨hn, hc⟩ | ⟨hn, hc⟩ | ⟨hn, hc⟩ <;> rw [hn, hc] <;>
    exact ⟨Name.isTypeName_append htype (List.all_eq_true.mp (by decide)), by decide⟩

end OpenApi

end SchemaForge
