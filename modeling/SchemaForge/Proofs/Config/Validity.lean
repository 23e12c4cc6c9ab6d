import Mathlib.Data.List.Forall2
import SchemaForge.Config.Reading
import SchemaForge.Proofs.Lists

/-!
# Configurations that were checked

* `Checked.map_eq_sound`, `Checked.seq_eq_sound` and their kin: when a check ends with a value.
* `Config.IsValid`: what is known of the names of the sources.
* **`Config.isValid_of_mapping`**: it is known of every configuration that a mapping writes.
-/

namespace SchemaForge.Config

namespace Checked

variable {α β : Type} {x : Checked α}

theorem map_eq_sound {f : α → β} {b : β} : f <$> x = sound b ↔ ∃ a, x = sound a ∧ f a = b := by
  cases x <;> simp [Functor.map, map]

theorem seq_eq_sound {f : Checked (α → β)} {b : β} :
    f <*> x = sound b ↔ ∃ g a, f = sound g ∧ x = sound a ∧ g a = b := by
  cases f <;> cases x <;> simp [Seq.seq, join]

theorem seqLeft_eq_sound {y : Checked β} {a : α} :
    x <* y = sound a ↔ x = sound a ∧ ∃ b, y = sound b := by
  cases x <;> cases y <;> simp [SeqLeft.seqLeft, map, join]

theorem under_eq_sound {step : Step} {a : α} : x.under step = sound a ↔ x = sound a := by
  cases x <;> simp [under]

theorem andThen_eq_sound {f : α → Checked β} {b : β} :
    x.andThen f = sound b ↔ ∃ a, x = sound a ∧ f a = sound b := by
  cases x <;> simp [andThen]

theorem all_eq_sound : ∀ {xs : List (Checked α)} {l : List α},
    all xs = sound l ↔ List.Forall₂ (fun x a => x = sound a) xs l
  | [], l => by
    rw [all, List.forall₂_nil_left_iff, sound.injEq]
    exact eq_comm
  | x :: xs, l => by
    rw [all, seq_eq_sound, List.forall₂_cons_left_iff]
    simp only [map_eq_sound, all_eq_sound]
    constructor
    · rintro ⟨_, rest, ⟨a, ha, rfl⟩, hrest, rfl⟩
      exact ⟨a, rest, ha, hrest, rfl⟩
    · rintro ⟨a, rest, ha, hrest, rfl⟩
      exact ⟨_, rest, ⟨a, ha, rfl⟩, hrest, rfl⟩

end Checked

open Checked

theorem obeying_eq_sound {α : Type} {rule : α → Option Rule} {a b : α} :
    obeying rule a = .sound b ↔ rule a = none ∧ a = b := by
  unfold obeying Checked.fail
  split <;> simp_all

theorem required_eq_sound {α : Type} {m : Mapping} {key : String} {read : Value → Checked α}
    {a : α} (h : required m key read = .sound a) : ∃ v, m.get? key = some v ∧ read v = .sound a := by
  have h := under_eq_sound.mp h
  split at h
  · exact ⟨_, by assumption, h⟩
  · cases h

/-! ## Names of sources -/

/-- Every source has a name that one may have, and no two have the same. -/
structure IsValid (c : Config) : Prop where
  named : ∀ s ∈ c.sources, isSourceName s.settings.name = true
  distinct : (c.sources.map (·.settings.name)).Nodup

theorem repeatedName?_eq_none : ∀ {ss : List Source} {seen : List String},
    repeatedName? seen ss = none → (ss.map (·.settings.name)).Nodup ∧
      ∀ s ∈ ss, s.settings.name ∉ seen
  | [], _, _ => ⟨List.nodup_nil, nofun⟩
  | s :: ss, seen, h => by
    rw [repeatedName?] at h
    split at h
    · cases h
    · rename_i hnew
      obtain ⟨hd, hseen⟩ := repeatedName?_eq_none h
      refine ⟨List.nodup_cons.mpr ⟨fun hmem => ?_, hd⟩, List.forall_mem_cons.mpr
        ⟨by simpa using hnew, fun x hx hs => hseen x hx (List.mem_cons_of_mem _ hs)⟩⟩
      obtain ⟨x, hx, hname⟩ := List.mem_map.mp hmem
      exact hseen x hx (hname ▸ List.mem_cons_self)

theorem isSourceName_of_settings {m : Mapping} {s : Settings} (h : settings m = .sound s) :
    isSourceName s.name = true := by
  obtain ⟨_, _, h₁, -, rfl⟩ := seq_eq_sound.mp h
  obtain ⟨_, _, h₂, -, rfl⟩ := seq_eq_sound.mp h₁
  obtain ⟨_, _, h₃, -, rfl⟩ := seq_eq_sound.mp h₂
  obtain ⟨_, _, h₄, -, rfl⟩ := seq_eq_sound.mp h₃
  obtain ⟨_, _, h₅, -, rfl⟩ := seq_eq_sound.mp h₄
  obtain ⟨name, hname, rfl⟩ := map_eq_sound.mp h₅
  obtain ⟨v, -, hname⟩ := required_eq_sound hname
  obtain ⟨text, -, hname⟩ := andThen_eq_sound.mp hname
  obtain ⟨hrule, rfl⟩ := obeying_eq_sound.mp hname
  by_contra hnot
  rw [if_neg hnot] at hrule
  cases hrule

theorem isSourceName_of_graphql {m : Mapping} {s : Source} (h : graphql m = .sound s) :
    isSourceName s.settings.name = true := by
  obtain ⟨h₁, -⟩ := seqLeft_eq_sound.mp h
  obtain ⟨_, _, h₂, -, rfl⟩ := seq_eq_sound.mp h₁
  obtain ⟨_, _, h₃, -, rfl⟩ := seq_eq_sound.mp h₂
  obtain ⟨settings, hsettings, rfl⟩ := map_eq_sound.mp h₃
  exact isSourceName_of_settings hsettings

theorem isSourceName_of_openapi {m : Mapping} {s : Source} (h : openapi m = .sound s) :
    isSourceName s.settings.name = true := by
  obtain ⟨h₁, -⟩ := seqLeft_eq_sound.mp h
  obtain ⟨_, _, h₂, -, rfl⟩ := seq_eq_sound.mp h₁
  obtain ⟨_, _, h₃, -, rfl⟩ := seq_eq_sound.mp h₂
  obtain ⟨_, _, h₄, -, rfl⟩ := seq_eq_sound.mp h₃
  obtain ⟨settings, hsettings, rfl⟩ := map_eq_sound.mp h₄
  exact isSourceName_of_settings hsettings

theorem isSourceName_of_source {v : Value} {s : Source} (h : source v = .sound s) :
    isSourceName s.settings.name = true := by
  unfold source at h
  split at h
  · split at h
    · cases h
    · exact isSourceName_of_graphql (under_eq_sound.mp h)
    · exact isSourceName_of_openapi (under_eq_sound.mp h)
    · cases h
  · cases h

theorem isSourceName_of_sourceList {v : Value} {ss : List Source} (h : sourceList v = .sound ss) :
    ∀ s ∈ ss, isSourceName s.settings.name = true := by
  unfold sourceList at h
  split at h
  · intro s hs
    obtain ⟨x, hx, hsound⟩ := exists_of_mem_right (all_eq_sound.mp h) hs
    obtain ⟨⟨v, i⟩, -, rfl⟩ := List.mem_map.mp hx
    exact isSourceName_of_source (under_eq_sound.mp hsound)
  · cases h

/-- **A configuration that a mapping writes** has sources with proper names, each with its own. -/
theorem isValid_of_mapping {base : Files.Path} {m : Mapping} {c : Config}
    (h : ofMapping base m = .sound c) : c.IsValid := by
  obtain ⟨_, hparts, hobeys⟩ := andThen_eq_sound.mp h
  obtain ⟨hrule, rfl⟩ := obeying_eq_sound.mp hobeys
  obtain ⟨hboth, -⟩ := seqLeft_eq_sound.mp hparts
  obtain ⟨_, sources, houtput, hsources, rfl⟩ := seq_eq_sound.mp hboth
  obtain ⟨output, -, rfl⟩ := map_eq_sound.mp houtput
  obtain ⟨v, -, hsources⟩ := required_eq_sound hsources
  unfold sourcesRule at hrule
  split at hrule
  · cases hrule
  · exact ⟨isSourceName_of_sourceList hsources,
      (repeatedName?_eq_none (Option.map_eq_none_iff.mp hrule)).1⟩

theorem IsValid.name_ne {c : Config} (h : c.IsValid) {s : Source} (hs : s ∈ c.sources) :
    s.settings.name ≠ ".." := by
  intro hname
  have hnamed := h.named s hs
  rw [hname] at hnamed
  exact absurd hnamed (by decide)

end SchemaForge.Config
