import SchemaForge.Dialect.Module
import SchemaForge.Proofs.Code.Balance
import SchemaForge.Proofs.Name.TypeName
import SchemaForge.Proofs.Schema.WellTyped

/-!
# Names and numbers in code

* `isWordChar`: the characters of names and numbers; none of them means anything to the scanner.
* `wordy_number`, `wordy_display`: numbers as they are written.
* `wordy_identifier`, `wordy_schemaVar`, `wordy_adapterVar`: names.
* `value_cases`, `comment_cases`: a value is a literal or a word, a description a comment or none.
* `balanced_value`, `balanced_key`, `comment_ok`, `object_ok`: values, keys, comments and object
  literals.
-/

namespace SchemaForge

theorem Name.dropFinalNewline_cases (cs : List Char) :
    dropFinalNewline cs = cs ∨ cs = dropFinalNewline cs ++ ['\n'] := by
  unfold dropFinalNewline
  split
  · rename_i hlast
    obtain ⟨init, rfl⟩ := List.getLast?_eq_some_iff.mp (beq_iff_eq.mp hlast)
    exact .inr (by rw [List.dropLast_concat])
  · exact .inl rfl

namespace Code

/-- Whether a character stands in names and numbers. A line feed may end an identifier. -/
def isWordChar (c : Char) : Bool := c.isAlphanum || ['_', '$', '-', '+', '.', '\n'].contains c

theorem toNat_lt_of_isWordChar {c : Char} (h : isWordChar c) : c.toNat < 128 := by
  rw [isWordChar, Bool.or_eq_true] at h
  rcases h with h | h
  · exact Name.toNat_lt_of_isAlphanum h
  · simp only [List.contains_eq_mem, List.mem_cons, List.not_mem_nil, or_false,
      decide_eq_true_eq] at h
    rcases h with rfl | rfl | rfl | rfl | rfl | rfl <;> decide

theorem isMark_of_isWordChar {c : Char} (h : isWordChar c) : Scanner.isMark c = false := by
  have := @Name.of_lt (fun c => !isWordChar c || !Scanner.isMark c) (by decide) c
    (toNat_lt_of_isWordChar h)
  simpa [h] using this

/-- Words of names and numbers. -/
def Wordy (cs : List Char) : Prop := ∀ c ∈ cs, isWordChar c

theorem wordy_of_all {cs : List Char} (h : cs.all isWordChar) : Wordy cs := List.all_eq_true.mp h

theorem Wordy.append {cs ds : List Char} (h : Wordy cs) (h' : Wordy ds) : Wordy (cs ++ ds) :=
  fun c hc => (List.mem_append.mp hc).elim (h c) (h' c)

theorem Wordy.cons {c : Char} {cs : List Char} (hc : isWordChar c) (h : Wordy cs) :
    Wordy (c :: cs) :=
  List.forall_mem_cons.mpr ⟨hc, h⟩

theorem Wordy.subset {cs ds : List Char} (h : Wordy cs) (hs : ds ⊆ cs) : Wordy ds :=
  fun c hc => h c (hs hc)

theorem scanWords_of_wordy {words : String} (h : Wordy words.toList) (awaited : List Char) :
    scanWords awaited words = some awaited :=
  scanWords_of_not_mark fun c hc => isMark_of_isWordChar (h c hc)

/-! ## Numbers -/

theorem wordy_toDigits (n : Nat) : Wordy (Nat.toDigits 10 n) := fun c hc => by
  have := Nat.isDigit_of_mem_toDigits (by decide) (by decide) hc
  simp [isWordChar, Char.isAlphanum, this]

theorem wordy_replicate (n : Nat) : Wordy (List.replicate n '0') := fun c hc => by
  rw [List.eq_of_mem_replicate hc]
  rfl

theorem wordy_int (n : Int) : Wordy (toString n).toList := by
  have hnat : ∀ n : Nat, Wordy (Nat.repr n).toList := fun n => by
    rw [Nat.repr, String.toList_ofList]
    exact wordy_toDigits n
  cases n with
  | ofNat n => exact hnat n
  | negSucc n =>
    change Wordy ("-" ++ Nat.repr (n + 1)).toList
    rw [String.toList_append]
    exact Wordy.append (List.forall_mem_singleton.mpr rfl) (hnat _)

theorem wordy_exponentText (n : Int) : Wordy (Double.exponentText n) := by
  unfold Double.exponentText
  refine .cons rfl (.cons (by split <;> rfl) ?_)
  split
  · exact .cons rfl (wordy_toDigits _)
  · exact wordy_toDigits _

theorem wordy_layout {digits : List Char} (h : Wordy digits) (point : Int) :
    Wordy (Double.layout digits point) := by
  unfold Double.layout
  split
  · split
    · exact .cons rfl (.cons rfl ((wordy_replicate _).append h))
    · dsimp only
      split
      · exact (h.append (wordy_replicate _)).append (wordy_of_all rfl)
      · exact (h.subset (List.take_subset _ _)).append
          (.cons rfl (h.subset (List.drop_subset _ _)))
  · split
    · exact h
    · rename_i first rest
      have hfirst := h first List.mem_cons_self
      have hrest : Wordy rest := fun c hc => h c (List.mem_cons_of_mem _ hc)
      refine Wordy.append ?_ (wordy_exponentText _)
      split
      · exact .cons hfirst fun _ hc => absurd hc List.not_mem_nil
      · exact .cons hfirst (.cons rfl hrest)

theorem wordy_double (d : Double) : Wordy d.text.toList := by
  cases d with
  | nan => exact wordy_of_all (by decide)
  | infinite negative => cases negative <;> exact wordy_of_all (by decide)
  | finite negative mantissa exponent =>
    have hmagnitude : Wordy (if mantissa = 0 then ['0', '.', '0'] else
        Double.layout (Double.trimZeros (Nat.toDigits 10 (Double.shortest mantissa exponent).1))
          ((Double.shortest mantissa exponent).2 +
            (Nat.toDigits 10 (Double.shortest mantissa exponent).1).length)) := by
      split
      · exact wordy_of_all rfl
      · refine wordy_layout
          ((wordy_toDigits (Double.shortest mantissa exponent).1).subset fun c hc => ?_) _
        rw [Double.trimZeros, List.mem_reverse] at hc
        exact List.mem_reverse.mp ((List.dropWhile_suffix _).subset hc)
    rw [Double.text, String.toList_ofList]
    cases negative with
    | true => exact .cons rfl hmagnitude
    | false => exact hmagnitude

theorem wordy_display {v : Value} (hv : v.isNumber) : Wordy v.display.toList := by
  unfold Value.isNumber at hv
  split at hv
  · exact wordy_int _
  · exact wordy_double _
  · cases hv

theorem wordy_number {v : Value} (hv : v.isNumber) : Wordy v.number.toList := by
  have hdisplay := wordy_display hv
  unfold Value.number
  split
  · split
    · exact wordy_int _
    · exact hdisplay
  · exact hdisplay

/-! ## Names -/

theorem isWordChar_of_isIdentifierChar {c : Char} (h : Name.isIdentifierChar c) : isWordChar c := by
  simp only [Name.isIdentifierChar, Name.isIdentifierStart, Bool.or_eq_true, beq_iff_eq] at h
  simp only [isWordChar, Char.isAlphanum, Bool.or_eq_true, List.contains_eq_mem, List.mem_cons,
    decide_eq_true_eq]
  tauto

theorem wordy_identifier {name : String} (h : Name.isIdentifier name) : Wordy name.toList := by
  have hstem : Wordy (Name.dropFinalNewline name.toList) := by
    unfold Name.isIdentifier at h
    split at h
    · cases h
    · rename_i first rest hsplit
      rw [Bool.and_eq_true, List.all_eq_true] at h
      rw [hsplit]
      exact .cons (isWordChar_of_isIdentifierChar (by simp [Name.isIdentifierChar, h.1]))
        fun c hc => isWordChar_of_isIdentifierChar (h.2 c hc)
  rcases Name.dropFinalNewline_cases name.toList with hsame | hmore
  · rwa [hsame] at hstem
  · rw [hmore]
    exact hstem.append (wordy_of_all rfl)

theorem wordy_lowerFirst {cs : List Char} (h : Wordy cs) : Wordy (Text.lowerFirst cs) := by
  cases cs with
  | nil => exact h
  | cons c cs =>
    have hlt := toNat_lt_of_isWordChar (h c List.mem_cons_self)
    have hsigma : (c == 'Σ') = false := by
      rw [beq_eq_false_iff_ne]
      rintro rfl
      exact absurd hlt (by decide)
    have hlower : Text.lower [c] = [c.toLower] := by
      simp [Text.lower, Text.lowerFrom, hsigma, Text.lowerChar, hlt]
    rw [Text.lowerFirst, hlower]
    refine .cons ?_ fun d hd => h d (List.mem_cons_of_mem _ hd)
    have := @Name.of_lt (fun c => !isWordChar c || isWordChar c.toLower) (by decide) c hlt
    simpa [h c List.mem_cons_self] using this

theorem wordy_schemaVar {name : String} (h : Name.isIdentifier name) :
    Wordy (Name.schemaVar name).toList := by
  rw [Name.schemaVar, String.toList_append, String.toList_ofList]
  exact (wordy_lowerFirst (wordy_identifier h)).append (wordy_of_all (by decide))

theorem wordy_adapterVar {schemaVar : String} (h : Wordy schemaVar.toList) :
    Wordy (Name.adapterVar schemaVar).toList := by
  unfold Name.adapterVar
  dsimp only
  rw [String.toList_append, String.toList_ofList]
  refine Wordy.append ?_ (wordy_of_all (by decide))
  split
  · exact h.subset (List.take_subset _ _)
  · exact h

/-! ## Values, keys and comments -/

/-- A text is a literal, any other scalar a word. -/
theorem value_cases {v : Value} (hv : v.isScalar) : (∃ w, value v = [.quoted w]) ∨
    ∃ words : String, value v = [.plain words] ∧ Wordy words.toList := by
  unfold value
  split
  · exact .inl ⟨_, rfl⟩
  · rename_i hstr
    refine .inr ⟨_, rfl, ?_⟩
    unfold literal
    split
    · rename_i b
      cases b <;> exact wordy_of_all (by decide)
    · rename_i s
      exact absurd rfl (hstr s)
    · rename_i hbool hstr
      refine wordy_number ?_
      unfold Value.isScalar at hv
      split at hv
      · exact absurd rfl (hstr _)
      · exact absurd rfl (hbool _)
      · exact hv

theorem balanced_value {v : Value} (hv : v.isScalar) : Balanced (value v) := by
  rcases value_cases hv with ⟨w, h⟩ | ⟨words, h, hwords⟩
  · rw [h]
    exact balanced_quoted w
  · rw [h]
    exact balanced_plain.mpr (scanWords_of_wordy hwords [])

theorem balanced_key (name : String) : Balanced (key name) := by
  unfold key
  split
  · rename_i h
    exact balanced_plain.mpr (scanWords_of_wordy (wordy_identifier h) [])
  · exact balanced_quoted _

/-- A text or nothing makes a comment or none. -/
theorem comment_cases {d : Value} (hd : d.isTextOrNull) (indent : String) :
    comment d indent = .ok [] ∨
      ∃ s, isBlank s = false ∧ comment d indent = .ok [.comment s indent] := by
  unfold Value.isTextOrNull at hd
  split at hd
  · rename_i s
    rcases hs : isBlank s with _ | _
    · exact .inr ⟨s, hs, by simp [comment, commented?, hs, bind, Except.bind, pure, Except.pure]⟩
    · exact .inl (by simp [comment, commented?, hs, bind, Except.bind, pure, Except.pure])
  · exact .inl rfl
  · cases hd

theorem comment_ok {d : Value} (hd : d.isTextOrNull) {indent : String}
    (hi : ∀ c ∈ indent.toList, c = ' ') : ∃ doc, comment d indent = .ok doc ∧ Balanced doc := by
  rcases comment_cases hd indent with hdoc | ⟨s, hs, hdoc⟩
  · exact ⟨[], hdoc, balanced_nil⟩
  · refine ⟨_, hdoc, ?_⟩
    rw [Balanced, scan_cons, Piece.scan, if_pos]
    · rfl
    · simpa [hs] using hi

/-- **An object literal** of balanced keys and values has balanced lines between its braces. -/
theorem object_ok {fields : List Field} (depth : Nat) (hk : ∀ f ∈ fields, Balanced f.key)
    (hv : ∀ f ∈ fields, Balanced f.value) (hd : ∀ f ∈ fields, f.description.isTextOrNull) :
    ∃ lines, object fields depth = .ok (braces lines depth) ∧ ∀ line ∈ lines, Balanced line := by
  have hlines : ∀ f ∈ fields, ∃ lines, f.lines (indentation (depth + 1)) = .ok lines ∧
      ∀ c ∈ lines, Balanced c := by
    intro f hf
    obtain ⟨doc, hdoc, hb⟩ := comment_ok (hd f hf) (indentation_blank (depth + 1))
    refine ⟨_, by rw [Field.lines, hdoc]; rfl, balanced_commentedLine hb ?_⟩
    have hindent := balanced_plain.mpr (scanWords_indentation [] (depth + 1))
    have hcolon : Balanced [.plain ": "] := rfl
    have hcomma : Balanced [.plain ","] := rfl
    exact (((hindent.append (hk f hf)).append hcolon).append (hv f hf)).append hcomma
  obtain ⟨lines, hmap, hall⟩ := except_mapM_of_forall hlines
  refine ⟨lines.flatten, by rw [object, hmap]; rfl, fun line hline => ?_⟩
  obtain ⟨own, hown, hline⟩ := List.mem_flatten.mp hline
  exact hall own hown line hline

end Code

end SchemaForge
