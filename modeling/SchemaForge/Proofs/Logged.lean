import Mathlib.Data.List.Forall2
import SchemaForge.Logged

/-!
# Outcomes of steps

What is known of a step from the outcomes of its parts, and of its log when they end with a value.

* `Logged.outcome_bind`: a step after a step that ends with a value.
* `Logged.outcome_bind_eq_ok`, `Logged.outcome_mapM_eq_ok`: when a sequence of steps ends with a
  value.
* `Logged.log_bind`, `Logged.log_mapM`: what is noticed when it does.
-/

namespace SchemaForge

/-! ## Steps without a log -/

theorem except_bind_eq_ok {ε α β : Type} {x : Except ε α} {f : α → Except ε β} {b : β} :
    x >>= f = .ok b ↔ ∃ a, x = .ok a ∧ f a = .ok b := by
  cases x <;> simp [bind, Except.bind]

theorem except_bind_eq_error {ε α β : Type} {x : Except ε α} {f : α → Except ε β} {e : ε} :
    x >>= f = .error e ↔ x = .error e ∨ ∃ a, x = .ok a ∧ f a = .error e := by
  cases x <;> simp [bind, Except.bind]

theorem except_map_eq_ok {ε α β : Type} {x : Except ε α} {f : α → β} {b : β} :
    x.map f = .ok b ↔ ∃ a, x = .ok a ∧ f a = b := by
  cases x <;> simp [Except.map]

theorem except_map_eq_error {ε α β : Type} {x : Except ε α} {f : α → β} {e : ε} :
    x.map f = .error e ↔ x = .error e := by
  cases x <;> simp [Except.map]

theorem mapError_eq_ok {ε ε' α : Type} {x : Except ε α} {f : ε → ε'} {a : α} :
    x.mapError f = .ok a ↔ x = .ok a := by
  cases x <;> simp [Except.mapError]

theorem except_mapM_eq_ok {ε α β : Type} {f : α → Except ε β} : ∀ {l : List α} {bs : List β},
    l.mapM f = .ok bs ↔ List.Forall₂ (fun a b => f a = .ok b) l bs
  | [], bs => by
    rw [List.mapM_nil, List.forall₂_nil_left_iff]
    exact ⟨fun h => (Except.ok.inj h).symm, fun h => h ▸ rfl⟩
  | a :: l, bs => by
    rw [List.mapM_cons, except_bind_eq_ok, List.forall₂_cons_left_iff]
    refine exists_congr fun b => ?_
    rw [except_bind_eq_ok, ← exists_and_left]
    refine exists_congr fun bs' => ?_
    rw [except_mapM_eq_ok]
    exact ⟨fun ⟨h₁, h₂, h₃⟩ => ⟨h₁, h₂, (Except.ok.inj h₃).symm⟩,
      fun ⟨h₁, h₂, h₃⟩ => ⟨h₁, h₂, h₃ ▸ rfl⟩⟩

/-- Steps for the items of a list stop at the first one that stops. -/
theorem except_mapM_eq_error {ε α β : Type} {f : α → Except ε β} {e : ε} : ∀ {l : List α},
    l.mapM f = .error e ↔ ∃ pre a post, l = pre ++ a :: post ∧ (∀ x ∈ pre, ∃ b, f x = .ok b) ∧
      f a = .error e
  | [] => by
    rw [List.mapM_nil]
    refine iff_of_false nofun ?_
    rintro ⟨pre, a, post, h, -⟩
    cases pre <;> cases h
  | a :: l => by
    rw [List.mapM_cons, except_bind_eq_error]
    constructor
    · rintro (h | ⟨b, hb, h⟩)
      · exact ⟨[], a, l, rfl, nofun, h⟩
      · rcases except_bind_eq_error.mp h with h | ⟨_, -, h⟩
        · obtain ⟨pre, a', post, rfl, hpre, ha⟩ := except_mapM_eq_error.mp h
          exact ⟨a :: pre, a', post, rfl, List.forall_mem_cons.mpr ⟨⟨b, hb⟩, hpre⟩, ha⟩
        · cases h
    · rintro ⟨pre, a', post, hl, hpre, ha⟩
      cases pre with
      | nil =>
        obtain ⟨rfl, rfl⟩ := List.cons.inj hl
        exact .inl ha
      | cons x pre =>
        obtain ⟨rfl, rfl⟩ := List.cons.inj hl
        obtain ⟨⟨b, hb⟩, hpre⟩ := List.forall_mem_cons.mp hpre
        have hrest : (pre ++ a' :: post).mapM f = .error e :=
          except_mapM_eq_error.mpr ⟨pre, a', post, rfl, hpre, ha⟩
        exact .inr ⟨b, hb, except_bind_eq_error.mpr (.inl hrest)⟩

/-- A step for each item of a list, each known to end with a value of some kind. -/
theorem except_mapM_of_forall {ε α β : Type} {f : α → Except ε β} {P : β → Prop} : ∀ {l : List α},
    (∀ a ∈ l, ∃ b, f a = .ok b ∧ P b) → ∃ bs, l.mapM f = .ok bs ∧ ∀ b ∈ bs, P b
  | [], _ => ⟨[], rfl, fun _ h => absurd h List.not_mem_nil⟩
  | a :: l, h => by
    rw [List.forall_mem_cons] at h
    obtain ⟨⟨b, hb, hp⟩, h⟩ := h
    obtain ⟨bs, hbs, hall⟩ := except_mapM_of_forall h
    exact ⟨b :: bs, by rw [List.mapM_cons, hb, hbs]; rfl, List.forall_mem_cons.mpr ⟨hp, hall⟩⟩

namespace Logged

/-! ## Outcomes -/

variable {ε ω α β : Type}

@[ext] theorem ext {x y : Logged ε ω α} (hl : x.log = y.log) (ho : x.outcome = y.outcome) :
    x = y := by
  cases x; cases y; simp_all

@[simp] theorem outcome_pure (a : α) : (Pure.pure a : Logged ε ω α).outcome = .ok a := rfl

@[simp] theorem outcome_lift (x : Except ε α) : (lift x : Logged ε ω α).outcome = x := rfl

@[simp] theorem outcome_note (w : ω) : (note w : Logged ε ω Unit).outcome = .ok () := rfl

@[simp] theorem outcome_stop (e : ε) : (stop e : Logged ε ω α).outcome = .error e := rfl

theorem bind_def (x : Logged ε ω α) (f : α → Logged ε ω β) : x >>= f = x.bind f := rfl

theorem outcome_bind {x : Logged ε ω α} {a : α} (h : x.outcome = .ok a) (f : α → Logged ε ω β) :
    (x >>= f).outcome = (f a).outcome := by
  rw [bind_def, Logged.bind, h]

@[simp] theorem lift_ok_bind (a : α) (f : α → Logged ε ω β) : lift (.ok a) >>= f = f a := rfl

@[simp] theorem lift_error_bind (e : ε) (f : α → Logged ε ω β) :
    lift (.error e) >>= f = stop e := rfl

theorem outcome_lift_bind {x : Except ε α} {a : α} (h : x = .ok a) (f : α → Logged ε ω β) :
    (lift x >>= f).outcome = (f a).outcome :=
  outcome_bind h f

theorem outcome_bind_error {x : Logged ε ω α} {e : ε} (h : x.outcome = .error e)
    (f : α → Logged ε ω β) : (x >>= f).outcome = .error e := by
  rw [bind_def, Logged.bind, h]

/-- **A sequence of two steps ends with a value when both do.** -/
theorem outcome_bind_eq_ok {x : Logged ε ω α} {f : α → Logged ε ω β} {b : β} :
    (x >>= f).outcome = .ok b ↔ ∃ a, x.outcome = .ok a ∧ (f a).outcome = .ok b := by
  rcases h : x.outcome with e | a
  · simp [outcome_bind_error h]
  · simp [outcome_bind h]

/-- A step that does not stop ends with a value. -/
theorem outcome_ok_of_not_error {x : Logged ε ω α} (h : ∀ e, x.outcome ≠ .error e) :
    ∃ a, x.outcome = .ok a := by
  rcases hx : x.outcome with e | a
  · exact absurd hx (h e)
  · exact ⟨a, rfl⟩

theorem outcome_bind_eq_error {x : Logged ε ω α} {f : α → Logged ε ω β} {e : ε}
    (h : (x >>= f).outcome = .error e) :
    x.outcome = .error e ∨ ∃ a, x.outcome = .ok a ∧ (f a).outcome = .error e := by
  rcases hx : x.outcome with e' | a
  · rw [outcome_bind_error hx] at h
    cases h
    exact .inl rfl
  · rw [outcome_bind hx] at h
    exact .inr ⟨a, rfl, h⟩

instance : LawfulMonad (Logged ε ω) := .mk' _
  (fun x => by
    ext1 <;> rcases h : x.outcome <;> simp [Functor.map, Logged.bind, Logged.pure, h])
  (fun a f => by ext1 <;> simp [Bind.bind, Logged.bind, Pure.pure, Logged.pure])
  (fun x f g => by
    ext1 <;> rcases h : x.outcome with e | a <;> simp [Bind.bind, Logged.bind, h]
    · rcases h' : (f a).outcome <;> simp
    · rcases h' : (f a).outcome <;> simp)

theorem outcome_mapM_eq_ok {f : α → Logged ε ω β} : ∀ {l : List α} {bs : List β},
    (l.mapM f).outcome = .ok bs ↔ List.Forall₂ (fun a b => (f a).outcome = .ok b) l bs
  | [], bs => by
    rw [List.mapM_nil, outcome_pure, List.forall₂_nil_left_iff]
    exact ⟨fun h => (Except.ok.inj h).symm, fun h => h ▸ rfl⟩
  | a :: l, bs => by
    rw [List.mapM_cons, outcome_bind_eq_ok, List.forall₂_cons_left_iff]
    refine exists_congr fun b => ?_
    rw [outcome_bind_eq_ok, ← exists_and_left]
    refine exists_congr fun bs' => ?_
    rw [outcome_mapM_eq_ok, outcome_pure]
    exact ⟨fun ⟨h₁, h₂, h₃⟩ => ⟨h₁, h₂, (Except.ok.inj h₃).symm⟩,
      fun ⟨h₁, h₂, h₃⟩ => ⟨h₁, h₂, h₃ ▸ rfl⟩⟩

theorem outcome_mapM_eq_error {f : α → Logged ε ω β} {e : ε} : ∀ {l : List α},
    (l.mapM f).outcome = .error e → ∃ a ∈ l, (f a).outcome = .error e
  | [], h => by
    rw [List.mapM_nil] at h
    cases h
  | a :: l, h => by
    rw [List.mapM_cons] at h
    rcases outcome_bind_eq_error h with h | ⟨b, -, h⟩
    · exact ⟨a, List.mem_cons_self, h⟩
    · rcases outcome_bind_eq_error h with h | ⟨bs, -, h⟩
      · obtain ⟨x, hx, he⟩ := outcome_mapM_eq_error h
        exact ⟨x, List.mem_cons_of_mem _ hx, he⟩
      · cases h

theorem length_of_mapM {f : α → Logged ε ω β} {l : List α} {bs : List β}
    (h : (l.mapM f).outcome = .ok bs) : bs.length = l.length :=
  (outcome_mapM_eq_ok.mp h).length_eq.symm

theorem bind_congr_of_outcome {x : Logged ε ω α} {f g : α → Logged ε ω β}
    (h : ∀ a, x.outcome = .ok a → f a = g a) : x >>= f = x >>= g := by
  rw [bind_def, bind_def, Logged.bind, Logged.bind]
  rcases hx : x.outcome with e | a
  · rfl
  · simp only [h a hx]

/-- A step for each item of a list, each known to end with a value that is related to its item. -/
theorem outcome_mapM_of_forall {f : α → Logged ε ω β} {R : α → β → Prop} : ∀ {l : List α},
    (∀ a ∈ l, ∃ b, (f a).outcome = .ok b ∧ R a b) →
      ∃ bs, (l.mapM f).outcome = .ok bs ∧ List.Forall₂ R l bs
  | [], _ => ⟨[], by simp, .nil⟩
  | a :: l, h => by
    obtain ⟨b, hb, hr⟩ := h a List.mem_cons_self
    obtain ⟨bs, hbs, hrs⟩ := outcome_mapM_of_forall fun x hx => h x (List.mem_cons_of_mem _ hx)
    refine ⟨b :: bs, ?_, .cons hr hrs⟩
    rw [List.mapM_cons, outcome_bind hb, outcome_bind hbs, outcome_pure]

/-- A step for each item of a list, each known to end with a value of some kind. -/
theorem outcome_mapM_forall {f : α → Logged ε ω β} {P : β → Prop} : ∀ {l : List α},
    (∀ a ∈ l, ∃ b, (f a).outcome = .ok b ∧ P b) →
      ∃ bs, (l.mapM f).outcome = .ok bs ∧ ∀ b ∈ bs, P b
  | [], _ => ⟨[], by simp, fun _ h => absurd h List.not_mem_nil⟩
  | a :: l, h => by
    rw [List.forall_mem_cons] at h
    obtain ⟨⟨b, hb, hp⟩, h⟩ := h
    obtain ⟨bs, hbs, hall⟩ := outcome_mapM_forall h
    refine ⟨b :: bs, ?_, List.forall_mem_cons.mpr ⟨hp, hall⟩⟩
    rw [List.mapM_cons, outcome_bind hb, outcome_bind hbs, outcome_pure]

/-- The same steps for the items of two lists. -/
theorem mapM_congr {α' : Type} {f : α → Logged ε ω β} {g : α' → Logged ε ω β} {l : List α}
    {l' : List α'} (h : List.Forall₂ (fun a b => f a = g b) l l') : l.mapM f = l'.mapM g := by
  induction h with
  | nil => rfl
  | cons h _ ih => rw [List.mapM_cons, List.mapM_cons, h, ih]

theorem mapM_congr_of_forall {α' : Type} {f g : α' → Logged ε ω β} {l : List α'}
    (h : ∀ a ∈ l, f a = g a) : l.mapM f = l.mapM g :=
  mapM_congr (List.forall₂_same.mpr h)

theorem mapM_map (g : α → β) {γ : Type} (f : γ → Logged ε ω α) : ∀ l : List γ,
    (l.mapM fun x => do return g (← f x)) = List.map g <$> l.mapM f
  | [] => by simp
  | x :: l => by
    rw [List.mapM_cons, List.mapM_cons, mapM_map g f l]
    simp only [map_eq_pure_bind, bind_assoc, pure_bind, List.map_cons]

/-! ## Logs -/

@[simp] theorem log_pure (a : α) : (Pure.pure a : Logged ε ω α).log = [] := rfl

@[simp] theorem log_lift (x : Except ε α) : (lift x : Logged ε ω α).log = [] := rfl

@[simp] theorem log_note (w : ω) : (note w : Logged ε ω Unit).log = [w] := rfl

@[simp] theorem log_stop (e : ε) : (stop e : Logged ε ω α).log = [] := rfl

theorem log_bind {x : Logged ε ω α} {a : α} (h : x.outcome = .ok a) (f : α → Logged ε ω β) :
    (x >>= f).log = x.log ++ (f a).log := by
  rw [bind_def, Logged.bind, h]

theorem log_bind_error {x : Logged ε ω α} {e : ε} (h : x.outcome = .error e)
    (f : α → Logged ε ω β) : (x >>= f).log = x.log := by
  rw [bind_def, Logged.bind, h]

/-- A step that ends by computing a value notices nothing more. -/
theorem log_bind_of_forall {x : Logged ε ω α} {f : α → Logged ε ω β} (hf : ∀ a, (f a).log = []) :
    (x >>= f).log = x.log := by
  rcases h : x.outcome with e | a
  · rw [log_bind_error h]
  · rw [log_bind h, hf, List.append_nil]

theorem mem_log_bind {w : ω} {x : Logged ε ω α} {f : α → Logged ε ω β} (h : w ∈ (x >>= f).log) :
    w ∈ x.log ∨ ∃ a, x.outcome = .ok a ∧ w ∈ (f a).log := by
  rcases hx : x.outcome with e | a
  · rw [log_bind_error hx] at h
    exact .inl h
  · rw [log_bind hx] at h
    exact (List.mem_append.mp h).imp_right fun h => ⟨a, rfl, h⟩

theorem mem_log_mapM {w : ω} {f : α → Logged ε ω β} : ∀ {l : List α}, w ∈ (l.mapM f).log →
    ∃ a ∈ l, w ∈ (f a).log
  | [], h => by
    rw [List.mapM_nil, log_pure] at h
    cases h
  | a :: l, h => by
    rw [List.mapM_cons] at h
    rcases mem_log_bind h with h | ⟨b, -, h⟩
    · exact ⟨a, List.mem_cons_self, h⟩
    · rcases mem_log_bind h with h | ⟨bs, -, h⟩
      · obtain ⟨x, hx, hw⟩ := mem_log_mapM h
        exact ⟨x, List.mem_cons_of_mem _ hx, hw⟩
      · cases h

theorem log_bind_eq_nil {x : Logged ε ω α} {f : α → Logged ε ω β} (hx : x.log = [])
    (hf : ∀ a, (f a).log = []) : (x >>= f).log = [] := by
  rcases h : x.outcome with e | a
  · rw [log_bind_error h, hx]
  · rw [log_bind h, hx, hf, List.nil_append]

theorem log_mapM_eq_nil {f : α → Logged ε ω β} : ∀ {l : List α}, (∀ a ∈ l, (f a).log = []) →
    (l.mapM f).log = []
  | [], _ => by rw [List.mapM_nil, log_pure]
  | a :: l, h => by
    rw [List.mapM_cons]
    exact log_bind_eq_nil (h a List.mem_cons_self) fun _ =>
      log_bind_eq_nil (log_mapM_eq_nil fun x hx => h x (List.mem_cons_of_mem _ hx)) fun _ => rfl

theorem log_mapM {f : α → Logged ε ω β} : ∀ {l : List α} {bs : List β},
    (l.mapM f).outcome = .ok bs → (l.mapM f).log = l.flatMap fun a => (f a).log
  | [], _, _ => by rw [List.mapM_nil, log_pure, List.flatMap_nil]
  | a :: l, bs, h => by
    rw [List.mapM_cons] at h ⊢
    obtain ⟨b, hb, h⟩ := outcome_bind_eq_ok.mp h
    obtain ⟨bs', hbs, -⟩ := outcome_bind_eq_ok.mp h
    rw [log_bind hb, log_bind hbs, log_mapM hbs, log_pure, List.append_nil, List.flatMap_cons]

end Logged

end SchemaForge
