import Mathlib.Data.List.DropRight
import Mathlib.Data.List.TakeWhile
import SchemaForge.Proofs.Logged
import SchemaForge.Proofs.Scalar.Balance

/-!
# What the check of scalar code accepts

Code passes the check of a library when it is a balanced expression that is no literal, no type word
and no code of another library.

* `Acceptable`: code that a library takes as it is.
* `refusal?_eq_none_iff`, **`check_eq_ok_iff`**: the check passes on acceptable code, and no other.
* `check_other`: where code that begins as the code of a library does is refused.
* `check_expression`: the expressions that are suggested are acceptable.
* **`checkFor_stable`**: what has passed the check passes it again, and no other library takes it for
  its own; what is suggested passes.
-/

namespace SchemaForge

/-! ## White space -/

theorem Text.stripLeft_strip (cs : List Char) :
    Text.stripLeft (Text.strip cs) = Text.strip cs := by
  have hpre : Text.strip cs <+: Text.stripLeft cs := List.rdropWhile_prefix Text.isBlank _
  have hhead : (Text.stripLeft cs).dropWhile Text.isBlank = Text.stripLeft cs :=
    List.dropWhile_idempotent _ _
  rw [Text.stripLeft, List.dropWhile_eq_self_iff]
  rw [List.dropWhile_eq_self_iff] at hhead
  intro hpos
  rw [hpre.getElem hpos]
  exact hhead (hpos.trans_le hpre.length_le)

theorem Text.strip_strip (cs : List Char) : Text.strip (Text.strip cs) = Text.strip cs := by
  rw [Text.strip, Text.stripLeft_strip]
  exact List.rdropWhile_idempotent _ _

/-! ## Libraries -/

theorem Library.mem_all (lib : Library) : lib ∈ Library.all := by
  cases lib <;> decide

theorem Library.ofName?_name (lib : Library) : Library.ofName? lib.name = some lib := by
  cases lib <;> rfl

namespace Scalar

variable {lib other : Library} {scalar code r : String} {cs : List Char}

/-! ## Acceptable code -/

/-- Code that a library takes as it is. -/
structure Acceptable (lib : Library) (cs : List Char) : Prop where
  stripped : Text.strip cs = cs
  ne_nil : cs ≠ []
  isCode : IsCode cs
  not_literal : ∀ q ∈ quotes, ∀ body, cs ≠ q :: (body ++ [q])
  /-- In lower case it is no type word. -/
  not_word : ∀ word ∈ typeWords, Text.lower cs ≠ word.1.toList
  not_other : ∀ other, other ≠ lib → ∀ opening ∈ openings other, ¬ opening.toList <+: cs

theorem quoted?_eq_none_iff :
    quoted? cs = none ↔ ∀ q ∈ quotes, ∀ body, cs ≠ q :: (body ++ [q]) := by
  cases cs with
  | nil => simp [quoted?]
  | cons c rest =>
    rw [quoted?, ite_eq_right_iff, Bool.and_eq_true, isQuote_iff, beq_iff_eq]
    constructor
    · rintro h q hq body he
      obtain ⟨rfl, rfl⟩ := List.cons.inj he
      exact nomatch h ⟨hq, List.getLast?_concat⟩
    · rintro h ⟨hq, hlast⟩
      obtain ⟨body, rfl⟩ := List.getLast?_eq_some_iff.mp hlast
      exact absurd rfl (h c hq body)

theorem word?_eq_none_iff :
    word? cs = none ↔ ∀ word ∈ typeWords, Text.lower cs ≠ word.1.toList := by
  rw [word?, List.lookup_eq_none_iff]
  refine forall₂_congr fun word _ => ?_
  rw [bne_iff_ne, ne_eq, ne_eq, ← String.toList_inj, String.toList_ofList]

theorem beginsAs_iff : beginsAs cs lib = true ↔ ∃ opening ∈ openings lib, opening.toList <+: cs := by
  simp [beginsAs]

theorem find?_otherLibrary_eq_none_iff :
    (Library.all.find? fun other => other != lib && beginsAs cs other) = none ↔
      ∀ other, other ≠ lib → ∀ opening ∈ openings other, ¬ opening.toList <+: cs := by
  simp [List.find?_eq_none, Library.mem_all, beginsAs_iff]

/-- **Acceptable code** is what is not refused. -/
theorem refusal?_eq_none_iff (hs : Text.strip cs = cs) :
    refusal? lib cs = none ↔ Acceptable lib cs := by
  constructor
  · intro h
    unfold refusal? at h
    dsimp only at h
    split at h
    · cases h
    · rename_i hne
      split at h
      · cases h
      · rename_i hquoted
        split at h
        · cases h
        · rename_i hword
          split at h
          · cases h
          · rename_i hother
            split at h
            · rename_i hcode
              exact ⟨hs, by simpa using hne, isCode_of_isBalanced hcode,
                quoted?_eq_none_iff.mp hquoted, word?_eq_none_iff.mp (by simpa using hword),
                find?_otherLibrary_eq_none_iff.mp hother⟩
            · cases h
  · intro h
    have hne : cs.isEmpty = false := by simpa using h.ne_nil
    simp only [refusal?, hne, quoted?_eq_none_iff.mpr h.not_literal,
      word?_eq_none_iff.mpr h.not_word, find?_otherLibrary_eq_none_iff.mpr h.not_other,
      isBalanced_of_isCode h.isCode, Option.isSome_none, Bool.false_eq_true, if_false, if_true]

/-! ## The check -/

/-- **The check passes** on acceptable code, which it returns without the white space around it. -/
theorem check_eq_ok_iff : check lib scalar code = .ok r ↔
    r = String.ofList (Text.strip code.toList) ∧ Acceptable lib r.toList := by
  have hrefusal : refusal? lib (Text.strip code.toList) = none ↔
      Acceptable lib (Text.strip code.toList) := refusal?_eq_none_iff (Text.strip_strip _)
  unfold check
  dsimp only
  split
  · rename_i refusal hr
    simp only [reduceCtorEq, false_iff, not_and]
    rintro rfl h
    rw [String.toList_ofList, ← hrefusal, hr] at h
    cases h
  · rename_i hr
    constructor
    · intro h
      cases h
      exact ⟨rfl, by rw [String.toList_ofList]; exact hrefusal.mp hr⟩
    · rintro ⟨rfl, -⟩
      rfl

theorem check_of_acceptable (h : Acceptable lib code.toList) : check lib scalar code = .ok code :=
  check_eq_ok_iff.mpr ⟨by rw [h.stripped, String.ofList_toList], h⟩

/-- Code that begins as the code of one library does is refused for every other one. -/
theorem check_other (h : Acceptable lib code.toList) (hb : beginsAs code.toList lib = true)
    (ho : other ≠ lib) :
    check other scalar code = .error ⟨scalar, other, .otherLibrary lib code⟩ := by
  -- the only library that the code can be mistaken for is its own
  have hown : ∀ l, (l != other && beginsAs code.toList l) = (l == lib) := by
    intro l
    by_cases hl : l = lib
    · subst hl
      simp [hb, ho.symm]
    · have hnot : beginsAs code.toList l = false := by
        rw [← Bool.not_eq_true, beginsAs_iff]
        rintro ⟨opening, hmem, hpre⟩
        exact h.not_other l hl opening hmem hpre
      simp [hnot, hl]
  have hfind : (Library.all.find? fun l => l != other && beginsAs code.toList l) = some lib := by
    rw [funext hown]
    cases lib <;> rfl
  have hne : code.toList.isEmpty = false := by simpa using h.ne_nil
  simp only [check, refusal?, h.stripped, hne, quoted?_eq_none_iff.mpr h.not_literal,
    word?_eq_none_iff.mpr h.not_word, hfind, Option.isSome_none, Bool.false_eq_true, if_false,
    String.ofList_toList]

/-! ## Suggestions -/

theorem check_expression (lib : Library) (word : Word) (scalar : String) :
    check lib scalar (expression lib word) = .ok (expression lib word) := by
  cases lib <;> cases word <;> rfl

theorem exists_of_suggestion? {e : Error} (h : e.suggestion? = some r) :
    ∃ word, r = expression e.library word := by
  unfold Error.suggestion? at h
  split at h <;> cases h <;> exact ⟨_, rfl⟩

theorem library_of_check {e : Error} (h : check lib scalar code = .error e) : e.library = lib := by
  unfold check at h
  dsimp only at h
  split at h
  · cases h
    rfl
  · cases h

/-! ## Libraries by name -/

theorem checkFor_name : checkFor lib.name scalar (some code) = (check lib scalar code).map some := by
  rw [checkFor, Library.ofName?_name]
  rfl

/-- **The check is stable.** What has passed is acceptable code, and passes again as it is; if it
begins as the code of its library does, every other library refuses it. What is suggested in place
of refused code passes as it is. -/
theorem checkFor_stable (lib : Library) (scalar code : String) :
    (∀ result, checkFor lib.name scalar (some code) = .ok result →
      ∃ r, result = some r ∧ r = String.ofList (Text.strip code.toList) ∧
        Acceptable lib r.toList ∧ checkFor lib.name scalar (some r) = .ok (some r) ∧
        ((∃ opening ∈ openings lib, opening.toList <+: r.toList) → ∀ other, other ≠ lib →
          checkFor other.name scalar (some r) = .error ⟨scalar, other, .otherLibrary lib r⟩)) ∧
    ∀ e s, checkFor lib.name scalar (some code) = .error e → e.suggestion? = some s →
      checkFor lib.name scalar (some s) = .ok (some s) := by
  simp only [checkFor_name]
  constructor
  · intro result h
    obtain ⟨r, hr, rfl⟩ := except_map_eq_ok.mp h
    obtain ⟨hstrip, hacc⟩ := check_eq_ok_iff.mp hr
    refine ⟨r, rfl, hstrip, hacc, ?_, fun hb other ho => ?_⟩
    · rw [check_of_acceptable hacc]
      rfl
    · rw [check_other hacc (beginsAs_iff.mpr hb) ho]
      rfl
  · intro e s h hs
    obtain ⟨word, rfl⟩ := exists_of_suggestion? hs
    rw [library_of_check (except_map_eq_error.mp h), check_expression]
    rfl

/-- Code of one library, and a type word in quotes. -/
theorem checkFor_count :
    checkFor "zod" "Count" (some "z.number() ") = .ok (some "z.number()") ∧
      checkFor "effect" "Count" (some "z.number()") =
        .error ⟨"Count", .effect, .otherLibrary .zod "z.number()"⟩ ∧
      checkFor "zod" "Count" (some "'Int'") =
        .error ⟨"Count", .zod, .literal "'Int'" ['I', 'n', 't']⟩ ∧
      checkFor "zod" "Count" (some "z.number().int()") = .ok (some "z.number().int()") := by
  have hok : checkFor "zod" "Count" (some "z.number() ") = .ok (some "z.number()") := rfl
  have hbad : checkFor "zod" "Count" (some "'Int'") =
      .error ⟨"Count", .zod, .literal "'Int'" ['I', 'n', 't']⟩ := rfl
  obtain ⟨r, hr, -, -, -, hother⟩ := (checkFor_stable .zod "Count" "z.number() ").1 _ hok
  cases hr
  exact ⟨hok, hother (by decide) .effect (by decide), hbad,
    (checkFor_stable .zod "Count" "'Int'").2 _ _ hbad rfl⟩

end Scalar

end SchemaForge
