import SchemaForge.Proofs.Schema.Induction
import SchemaForge.Proofs.Value.Mapping

/-!
# Properties and absence

What is added to a schema so that its value may be absent refers to nothing.

* `mem_setProperty`, `mem_keys_setProperty`: what stands in properties after one was set.
* `Modified.refs_toSchema`, `Modified.refs_toProperty`: the references of a schema stay.
-/

namespace SchemaForge

variable {ps : List (Atom × Property Schema)} {k : String} {p : Property Schema}

theorem mem_setProperty {entry : Atom × Property Schema} (h : entry ∈ setProperty ps (.str k) p) :
    entry ∈ ps ∨ entry = (.str k, p) := by
  induction ps with
  | nil => exact .inr (List.mem_singleton.mp h)
  | cons x ps ih =>
    rw [setProperty] at h
    split at h
    · rename_i hk
      rcases List.mem_cons.mp h with rfl | h
      · exact .inr (by rw [sameKey_str.mp hk])
      · exact .inl (List.mem_cons_of_mem _ h)
    · rcases List.mem_cons.mp h with rfl | h
      · exact .inl List.mem_cons_self
      · exact (ih h).imp_left (List.mem_cons_of_mem _)

theorem mem_keys_setProperty {a : Atom} :
    a ∈ (setProperty ps (.str k) p).map (·.1) ↔ a = .str k ∨ a ∈ ps.map (·.1) := by
  induction ps with
  | nil => simp [setProperty]
  | cons x ps ih =>
    rw [setProperty]
    split
    · rename_i hk
      simp [sameKey_str.mp hk]
    · rw [List.map_cons, List.mem_cons, ih, List.map_cons, List.mem_cons]
      exact or_left_comm

/-- Properties that are set one after another are among those that are there in the end. -/
theorem mem_foldl_setProperty {entry : Atom × Property Schema} :
    ∀ {found : List (String × Property Schema)} {ps : List (Atom × Property Schema)},
      entry ∈ found.foldl (fun ps (x : String × Property Schema) => setProperty ps (.str x.1) x.2) ps →
        entry ∈ ps ∨ ∃ x ∈ found, entry = (.str x.1, x.2)
  | [], _, h => .inl h
  | x :: found, ps, h => by
    rw [List.foldl_cons] at h
    rcases mem_foldl_setProperty h with h | ⟨y, hy, rfl⟩
    · rcases mem_setProperty h with h | rfl
      · exact .inl h
      · exact .inr ⟨x, List.mem_cons_self, rfl⟩
    · exact .inr ⟨y, List.mem_cons_of_mem _ hy, rfl⟩

/-- The keys of properties that are set one after another. -/
theorem mem_keys_foldl_setProperty {a : Atom} :
    ∀ {found : List (String × Property Schema)} {ps : List (Atom × Property Schema)},
      a ∈ (found.foldl (fun ps (x : String × Property Schema) => setProperty ps (.str x.1) x.2)
        ps).map (·.1) ↔ a ∈ ps.map (·.1) ∨ ∃ x ∈ found, a = .str x.1
  | [], _ => by simp
  | x :: found, ps => by
    rw [List.foldl_cons, mem_keys_foldl_setProperty, mem_keys_setProperty]
    simp only [List.mem_cons, exists_eq_or_imp]
    rw [or_assoc, or_left_comm]

namespace Schema

@[simp] theorem refs_nullable (s : Schema) : s.nullable.refs = s.refs := by
  have hnew : (Schema.union [s, .null] .null).refs = s.refs := List.append_nil _
  unfold nullable
  split
  · split
    · rfl
    · exact hnew
  · exact hnew

@[simp] theorem refs_nullish (s : Schema) : s.nullish.refs = s.refs := List.append_nil _

end Schema

namespace Modified

@[simp] theorem refs_toSchema (m : Modified) : m.toSchema.refs = m.schema.refs := by
  unfold toSchema
  split
  · exact Schema.refs_nullish _
  · split
    · exact Schema.refs_nullable _
    · split
      · exact List.append_nil _
      · rfl

@[simp] theorem refs_toProperty (m : Modified) (description : Value) :
    (m.toProperty description).schema.refs = m.schema.refs := by
  unfold toProperty
  split
  · rfl
  · split
    · rfl
    · split
      · exact Schema.refs_nullable _
      · rfl

end Modified

end SchemaForge
