import Mathlib.Data.List.Induction
import SchemaForge.Proofs.Code.Escapes
import SchemaForge.Proofs.Code.Scanner

/-!
# Texts inside literals and comments

* `Scanner.Enclosed`: a text stands inside the one literal or comment that is opened for it.
* **`enclosed_quoted`**: so does the text of a literal, whatever it is.
* **`enclosed_comment`**: so does the text of a comment: none of its lines ends the comment.
-/

namespace SchemaForge.Code.Scanner

variable {awaited : List Char} {c : Char} {cs ds : List Char}

/-- A text stands inside the one literal or comment that is opened for it: the scanner does not leave
it before the end of the text, and leaves it where it is closed. -/
structure Enclosed (awaited opening body closing : List Char) : Prop where
  inside : ∀ pre, pre <+: body → ∃ mode : Mode, mode.isInside ∧
    scan ⟨.code, awaited⟩ (opening ++ pre) = some ⟨mode, awaited⟩
  closes : scan ⟨.code, awaited⟩ (opening ++ body ++ closing) = some ⟨.code, awaited⟩

/-! ## Literals -/

theorem encodeChar_cases (c : Char) : (∃ d, Quoted.encodeChar c = ['\\', d]) ∨
    Quoted.encodeChar c = [c] ∧ step ⟨.string, awaited⟩ c = some ⟨.string, awaited⟩ := by
  rcases Quoted.encodeChar_spec c with ⟨d, hd, -⟩ | ⟨hc, hb, hq, hn, hr⟩
  · exact .inl ⟨d, hd⟩
  · exact .inr ⟨hc, by simp [step, hb, hq, hn, hr]⟩

theorem scan_encodeChar (c : Char) :
    scan ⟨.string, awaited⟩ (Quoted.encodeChar c) = some ⟨.string, awaited⟩ := by
  rcases @encodeChar_cases awaited c with ⟨d, h⟩ | ⟨h, hs⟩
  · rw [h]
    rfl
  · rw [h, scan_cons, hs]
    rfl

theorem scan_encode (cs : List Char) :
    scan ⟨.string, awaited⟩ (Quoted.encode cs) = some ⟨.string, awaited⟩ := by
  induction cs with
  | nil => rfl
  | cons c cs ih =>
    rw [Quoted.encode_cons, scan_trans (scan_encodeChar c)]
    exact ih

theorem scan_encode_prefix : ∀ (cs : List Char) {pre : List Char}, pre <+: Quoted.encode cs →
    ∃ mode : Mode, mode.isInside ∧ scan ⟨.string, awaited⟩ pre = some ⟨mode, awaited⟩
  | _, [], _ => ⟨.string, rfl, rfl⟩
  | [], _ :: _, h => nomatch List.prefix_nil.mp h
  | c :: cs, x :: pre, h => by
    rw [Quoted.encode_cons] at h
    rcases @encodeChar_cases awaited c with ⟨d, hc⟩ | ⟨hc, hs⟩
    · rw [hc, List.cons_append, List.cons_prefix_cons] at h
      obtain ⟨rfl, h⟩ := h
      cases pre with
      | nil => exact ⟨.escape, rfl, rfl⟩
      | cons y pre =>
        rw [List.cons_append, List.cons_prefix_cons] at h
        obtain ⟨mode, hm, hs⟩ := scan_encode_prefix cs h.2
        exact ⟨mode, hm, hs⟩
    · rw [hc, List.cons_append, List.cons_prefix_cons] at h
      obtain ⟨rfl, h⟩ := h
      rw [scan_cons, hs]
      exact scan_encode_prefix cs h

/-- **The text of a literal** stands inside it, whatever it is. -/
theorem enclosed_quoted (awaited cs : List Char) :
    Enclosed awaited ['"'] (Quoted.encode cs) ['"'] where
  inside _ h := scan_encode_prefix cs h
  closes := by
    rw [List.append_assoc, List.singleton_append]
    change scan ⟨.string, awaited⟩ _ = _
    rw [scan_trans (scan_encode cs)]
    rfl

/-! ## Comments -/

/-- A text that does not end the comment that it stands in. -/
def KeepsOpen (cs : List Char) : Prop := ¬ ['*', '/'] <:+: cs

theorem KeepsOpen.within (h : KeepsOpen cs) (hd : ds <:+: cs) : KeepsOpen ds :=
  fun hi => h (hi.trans hd)

/-- A reader of comments stays in one that a text keeps open, and is behind a star in the end just
if the text ends with one. -/
theorem foldlM_of_keepsOpen {σ : Type} {step : σ → Char → Option σ} {inside star : σ}
    (hinside : ∀ c, step inside c = some (if c = '*' then star else inside))
    (hstar : ∀ c, c ≠ '/' → step star c = some (if c = '*' then star else inside))
    (h : KeepsOpen cs) :
    cs.foldlM step inside = some (if cs.getLast? = some '*' then star else inside) := by
  induction cs using List.reverseRecOn with
  | nil => rfl
  | append_singleton cs c ih =>
    have hbefore := ih (h.within (List.prefix_append _ _).isInfix)
    rw [List.foldlM_append, hbefore, List.getLast?_append]
    by_cases hs : cs.getLast? = some '*'
    · -- a slash behind this star would end the comment
      have hc : c ≠ '/' := by
        rintro rfl
        obtain ⟨init, rfl⟩ := List.getLast?_eq_some_iff.mp hs
        exact h ⟨init, [], by simp⟩
      simp [hs, hstar c hc]
    · simp [hs, hinside]

theorem scan_comment (h : KeepsOpen cs) : scan ⟨.comment, awaited⟩ cs =
    some ⟨if cs.getLast? = some '*' then .star else .comment, awaited⟩ := by
  have hinside : ∀ c, step ⟨.comment, awaited⟩ c =
      some (if c = '*' then ⟨.star, awaited⟩ else ⟨.comment, awaited⟩) := fun c => by
    by_cases hc : c = '*' <;> simp [step, hc]
  have hstar : ∀ c, c ≠ '/' → step ⟨.star, awaited⟩ c =
      some (if c = '*' then ⟨.star, awaited⟩ else ⟨.comment, awaited⟩) := fun c hne => by
    by_cases hc : c = '*' <;> simp [step, hne, hc]
  rw [scan, foldlM_of_keepsOpen hinside hstar h]
  split_ifs <;> rfl

theorem enclosed_of_keepsOpen (h : KeepsOpen cs) {indent : List Char} (hi : ∀ c ∈ indent, c = ' ') :
    Enclosed awaited (indent ++ ['/', '*']) cs ['*', '/'] := by
  have hopen : scan ⟨.code, awaited⟩ (indent ++ ['/', '*']) = some ⟨.comment, awaited⟩ := by
    rw [scan_trans (scan_of_not_mark fun c hc => by rw [hi c hc]; rfl)]
    rfl
  refine ⟨fun pre hpre => ?_, ?_⟩
  · refine ⟨_, ?_, (scan_trans hopen).trans (scan_comment (h.within hpre.isInfix))⟩
    split_ifs <;> rfl
  · rw [List.append_assoc, scan_trans hopen, scan_trans (scan_comment h)]
    split_ifs <;> rfl

/-! ## Comments of texts -/

theorem head?_keepOpen (cs : List Char) : (keepOpen cs).head? = cs.head? := by
  fun_cases keepOpen cs <;> rfl

theorem keepsOpen_keepOpen (cs : List Char) : KeepsOpen (keepOpen cs) := by
  unfold KeepsOpen
  fun_induction keepOpen cs with
  | case1 rest ih =>
    simp only [List.infix_cons_iff, List.cons_prefix_cons]
    simpa using ih
  | case2 c rest hne ih =>
    rw [List.infix_cons_iff, not_or]
    refine ⟨fun h => ?_, ih⟩
    obtain ⟨rfl, tail, ht⟩ := List.cons_prefix_cons.mp h
    have hhead := head?_keepOpen rest
    rw [← ht] at hhead
    cases rest with
    | nil => cases hhead
    | cons d rest =>
      cases hhead
      exact hne rest rfl rfl
  | case3 => simp

/-- Two texts do not end a comment when a character between them keeps them apart. -/
theorem KeepsOpen.append (hc : KeepsOpen cs) (hd : KeepsOpen ds) (hs : c ≠ '*') (hs' : c ≠ '/') :
    KeepsOpen (cs ++ c :: ds) := by
  induction cs with
  | nil =>
    unfold KeepsOpen
    rw [List.nil_append, List.infix_cons_iff, List.cons_prefix_cons, not_or]
    exact ⟨fun h => hs h.1.symm, hd⟩
  | cons x cs ih =>
    unfold KeepsOpen
    rw [List.cons_append, List.infix_cons_iff, not_or]
    refine ⟨fun h => ?_, ih (hc.within (List.suffix_cons _ _).isInfix)⟩
    obtain ⟨rfl, hnext⟩ := List.cons_prefix_cons.mp h
    cases cs with
    | nil => exact hs' (List.cons_prefix_cons.mp hnext).1.symm
    | cons y cs =>
      obtain ⟨rfl, -⟩ := List.cons_prefix_cons.mp hnext
      exact hc ⟨[], cs, rfl⟩

theorem keepsOpen_of_blank (h : ∀ c ∈ cs, c = ' ') : KeepsOpen cs := by
  rintro ⟨pre, post, rfl⟩
  exact absurd (h '*' (by simp)) (by decide)

theorem infix_of_mem_linesFrom {line : List Char} : ∀ {cs current : List Char},
    line ∈ Text.linesFrom current cs → line <:+: current.reverse ++ cs := by
  intro cs current h
  fun_induction Text.linesFrom current cs with
  | case1 => cases h
  | case2 current hne =>
    obtain rfl := List.mem_singleton.mp h
    exact (List.prefix_append _ _).isInfix
  | case3 current rest ih =>
    rcases List.mem_cons.mp h with rfl | h
    · exact (List.prefix_append _ _).isInfix
    · have hrest : rest <:+ current.reverse ++ '\r' :: '\n' :: rest :=
        ⟨current.reverse ++ ['\r', '\n'], by simp⟩
      exact (ih h).trans hrest.isInfix
  | case4 current c rest _ _ ih =>
    rcases List.mem_cons.mp h with rfl | h
    · exact (List.prefix_append _ _).isInfix
    · have hrest : rest <:+ current.reverse ++ c :: rest := ⟨current.reverse ++ [c], by simp⟩
      exact (ih h).trans hrest.isInfix
  | case5 current c rest _ _ ih =>
    have := ih h
    rwa [List.reverse_cons, List.append_assoc] at this

theorem stripRight_isPrefix (cs : List Char) : Text.stripRight cs <+: cs := by
  rw [Text.stripRight, ← List.reverse_suffix, List.reverse_reverse]
  exact List.dropWhile_suffix _

theorem strip_isInfix (cs : List Char) : Text.strip cs <:+: cs :=
  (stripRight_isPrefix _).isInfix.trans (List.dropWhile_suffix _).isInfix

theorem intercalate_cons (sep : List Char) (x : List Char) : ∀ xs : List (List Char),
    sep.intercalate (x :: xs) = x ++ xs.flatMap (sep ++ ·)
  | [] => by simp [List.intercalate]
  | y :: ys => by
    have ih := intercalate_cons sep y ys
    simp only [List.intercalate, List.intersperse_cons_cons, List.flatten_cons] at ih ⊢
    rw [ih, List.flatMap_cons, List.append_assoc]

theorem keepsOpen_nil : KeepsOpen [] := by simp [KeepsOpen]

theorem keepsOpen_star : KeepsOpen ['*'] := by simp [KeepsOpen, List.infix_cons_iff]

theorem keepsOpen_commentLine {indent line : List Char} (hi : ∀ c ∈ indent, c = ' ')
    (hl : KeepsOpen line) : KeepsOpen (commentLine indent line) := by
  unfold commentLine
  split_ifs
  · exact (keepsOpen_of_blank hi).append keepsOpen_star (by decide) (by decide)
  · rw [List.append_assoc]
    have hline := keepsOpen_star.append (c := ' ') (hl.within (stripRight_isPrefix line).isInfix)
      (by decide) (by decide)
    exact (keepsOpen_of_blank hi).append hline (by decide) (by decide)

theorem keepsOpen_lines {first : List Char} (hf : KeepsOpen first) : ∀ {lines : List (List Char)},
    (∀ line ∈ lines, KeepsOpen line) → KeepsOpen (first ++ lines.flatMap ('\n' :: ·)) := by
  intro lines
  induction lines generalizing first with
  | nil => exact fun _ => by rwa [List.flatMap_nil, List.append_nil]
  | cons line lines ih =>
    intro h
    rw [List.forall_mem_cons] at h
    rw [List.flatMap_cons, ← List.append_assoc]
    exact ih (hf.append h.1 (by decide) (by decide)) h.2

theorem commentLines_spec {indent : List Char} (hi : ∀ c ∈ indent, c = ' ')
    {lines : List (List Char)} (h : ∀ line ∈ lines, KeepsOpen line) : ∃ body,
    ['\n'].intercalate (commentLines indent lines) =
      indent ++ ['/', '*'] ++ body ++ ['*', '/'] ∧ KeepsOpen body := by
  have hmany : ∃ body, ['\n'].intercalate ((indent ++ ['/', '*', '*']) ::
      lines.map (commentLine indent) ++ [indent ++ [' ', '*', '/']]) =
        indent ++ ['/', '*'] ++ body ++ ['*', '/'] ∧ KeepsOpen body := by
    refine ⟨['*'] ++ (lines.map (commentLine indent) ++ [indent ++ [' ']]).flatMap ('\n' :: ·),
      ?_, keepsOpen_lines keepsOpen_star ?_⟩
    · rw [List.cons_append, intercalate_cons]
      simp
    · rw [List.forall_mem_append, List.forall_mem_map, List.forall_mem_singleton]
      exact ⟨fun line hm => keepsOpen_commentLine hi (h line hm),
        (keepsOpen_of_blank hi).append keepsOpen_nil (by decide) (by decide)⟩
  match lines, h, hmany with
  | [], _, hmany => exact hmany
  | [line], h, _ =>
    have hline := (h line (List.mem_singleton.mpr rfl)).within (strip_isInfix line)
    refine ⟨['*'] ++ ' ' :: (Text.strip line ++ [' ']), ?_,
      keepsOpen_star.append (hline.append keepsOpen_nil (by decide) (by decide)) (by decide)
        (by decide)⟩
    simp [commentLines, List.intercalate]
  | _ :: _ :: _, _, hmany => exact hmany

/-- **The comment of a text** stands between its marks, whatever the text is. -/
theorem enclosed_comment (awaited : List Char) {text indent : String}
    (ht : isBlank text = false) (hi : ∀ c ∈ indent.toList, c = ' ') : ∃ body,
    (docComment text indent).toList = indent.toList ++ ['/', '*'] ++ body ++ ['*', '/'] ∧
    Enclosed awaited (indent.toList ++ ['/', '*']) body ['*', '/'] := by
  have hlines : ∀ line ∈ Text.lines (keepOpen (Text.strip text.toList)), KeepsOpen line :=
    fun line hline => (keepsOpen_keepOpen _).within (infix_of_mem_linesFrom hline)
  obtain ⟨body, hbody, hopen⟩ := commentLines_spec hi hlines
  refine ⟨body, ?_, enclosed_of_keepsOpen hopen hi⟩
  rw [isBlank] at ht
  unfold docComment
  dsimp only
  rw [if_neg (by simp [ht]), String.toList_ofList]
  exact hbody

end SchemaForge.Code.Scanner
