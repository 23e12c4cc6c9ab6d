import SchemaForge.Proofs.Code.Enclosed

/-!
# Comments before code

Comments and white space mean nothing to the code behind them. A comment is of one line, from two
slashes to the end of the line, or a block, from its mark to the first mark that ends it.

* `OnlyComments`: texts of complete comments and white space.
* `Comments.step`, `Comments.read`: a reader of such texts; **`onlyComments_iff`**: it is outside of
  all comments behind these texts, and behind no other text.
* `Comments.skip`: what is left of a text from its first character of code on;
  **`skip_append`**: complete comments before a text do not change it.
-/

namespace SchemaForge.Code

/-! ## Texts of comments -/

/-- White space of the generated language within a line. -/
def isSpace (c : Char) : Bool :=
  let n := c.toNat
  n == 0x09 || n == 0x0b || n == 0x0c || n == 0x20 || n == 0x85 || n == 0xa0 || n == 0x1680
    || (0x2000 ≤ n && n ≤ 0x200b) || n == 0x202f || n == 0x205f || n == 0x3000 || n == 0xfeff

/-- The line ends of the generated language. -/
def endsLine (c : Char) : Bool :=
  c == '\n' || c == '\r' || c.toNat == 0x2028 || c.toNat == 0x2029

/-- Complete comments and white space, and nothing else. -/
inductive OnlyComments : List Char → Prop
  | nil : OnlyComments []
  | space {c : Char} {cs : List Char} : isSpace c = true ∨ endsLine c = true → OnlyComments cs →
    OnlyComments (c :: cs)
  | line {text cs : List Char} {c : Char} : (∀ d ∈ text, endsLine d = false) → endsLine c = true →
    OnlyComments cs → OnlyComments ('/' :: '/' :: (text ++ c :: cs))
  | block {text cs : List Char} : Scanner.KeepsOpen text → OnlyComments cs →
    OnlyComments ('/' :: '*' :: (text ++ '*' :: '/' :: cs))

namespace Comments

/-! ## Reading -/

/-- Where a reader is: outside of comments, behind a slash there, in a comment of one line, in a
block, behind a star in a block. -/
inductive Place where
  | outside
  | slash
  | line
  | block
  | star
  deriving DecidableEq, Repr, Inhabited

/-- One character. A character of code stops the reader. -/
def step : Place → Char → Option Place
  | .outside, c =>
    if c == '/' then some .slash else if isSpace c || endsLine c then some .outside else none
  | .slash, c => if c == '/' then some .line else if c == '*' then some .block else none
  | .line, c => some (if endsLine c then .outside else .line)
  | .block, c => some (if c == '*' then .star else .block)
  | .star, c => some (if c == '/' then .outside else if c == '*' then .star else .block)

/-- A text. -/
def read (p : Place) (cs : List Char) : Option Place := cs.foldlM step p

variable {p q : Place} {c : Char} {cs ds text : List Char}

@[simp] theorem read_nil : read p [] = some p := rfl

@[simp] theorem read_cons : read p (c :: cs) = (step p c).bind (read · cs) := rfl

theorem read_append : read p (cs ++ ds) = (read p cs).bind (read · ds) := List.foldlM_append

theorem read_trans (h : read p cs = some q) : read p (cs ++ ds) = read q ds := by
  rw [read_append, h, Option.bind_some]

/-! ### From a text of comments to its reading -/

theorem read_line (h : ∀ d ∈ text, endsLine d = false) : read .line text = some .line := by
  induction text with
  | nil => rfl
  | cons c text ih =>
    rw [List.forall_mem_cons] at h
    have hstep : step .line c = some .line := by simp [step, h.1]
    rw [read_cons, hstep, Option.bind_some, ih h.2]

theorem read_block (h : Scanner.KeepsOpen text) :
    read .block text = some (if text.getLast? = some '*' then .star else .block) := by
  have hblock : ∀ c, step .block c = some (if c = '*' then .star else .block) := fun c => by
    simp [step]
  have hstar : ∀ c, c ≠ '/' → step .star c = some (if c = '*' then .star else .block) :=
    fun c hc => by simp [step, hc]
  exact Scanner.foldlM_of_keepsOpen hblock hstar h

theorem read_of_onlyComments (h : OnlyComments cs) : read .outside cs = some .outside := by
  induction h with
  | nil => rfl
  | @space c cs hc _ ih =>
    have hslash : c ≠ '/' := by
      rintro rfl
      exact absurd hc (by decide)
    have hstep : step .outside c = some .outside := by simp [step, hslash, hc]
    rw [read_cons, hstep, Option.bind_some, ih]
  | @line text cs c htext hc _ ih =>
    have hstep : step .line c = some .outside := by simp [step, hc]
    change read .line (text ++ c :: cs) = _
    rw [read_trans (read_line htext), read_cons, hstep, Option.bind_some, ih]
  | @block text cs htext _ ih =>
    change read .block (text ++ '*' :: '/' :: cs) = _
    rw [read_trans (read_block htext)]
    split
    · exact ih
    · exact ih

/-! ### From a reading to a text of comments -/

/-- A text that begins in a block, ends it, and goes on with comments only. -/
def EndsBlock (cs : List Char) : Prop :=
  ∃ text rest, cs = text ++ '*' :: '/' :: rest ∧ Scanner.KeepsOpen text ∧ OnlyComments rest

/-- What a place demands of the rest of a text, so that there are complete comments in the end. -/
def Demands : Place → List Char → Prop
  | .outside, cs => OnlyComments cs
  | .slash, cs => OnlyComments ('/' :: cs)
  | .line, cs => ∃ text c rest, cs = text ++ c :: rest ∧ (∀ d ∈ text, endsLine d = false) ∧
    endsLine c = true ∧ OnlyComments rest
  | .block, cs => EndsBlock cs
  | .star, cs => EndsBlock ('*' :: cs)

/-- A character before a text that does not begin the end of a block. -/
theorem EndsBlock.cons (h : EndsBlock cs) (hc : c = '*' → cs.head? ≠ some '/') :
    EndsBlock (c :: cs) := by
  obtain ⟨text, rest, rfl, htext, hrest⟩ := h
  refine ⟨c :: text, rest, rfl, ?_, hrest⟩
  unfold Scanner.KeepsOpen
  rw [List.infix_cons_iff, not_or]
  refine ⟨fun hend => ?_, htext⟩
  obtain ⟨rfl, tail, htail⟩ := List.cons_prefix_cons.mp hend
  exact hc rfl (by rw [← htail]; rfl)

/-- **One character hands a demand on.** -/
theorem demands_of_step (h : step p c = some q) (hq : Demands q cs) : Demands p (c :: cs) := by
  cases p with
  | outside =>
    by_cases hs : c = '/'
    · subst hs
      cases h
      exact hq
    · have hblank : isSpace c = true ∨ endsLine c = true := by
        by_contra hnot
        simp_all [step]
      have hstep : step .outside c = some .outside := by simp [step, hs, hblank]
      obtain rfl := Option.some.inj (hstep.symm.trans h)
      exact .space hblank hq
  | slash =>
    by_cases hs : c = '/'
    · subst hs
      cases h
      obtain ⟨text, d, rest, rfl, htext, hd, hrest⟩ := hq
      exact .line htext hd hrest
    · by_cases hs' : c = '*'
      · subst hs'
        cases h
        obtain ⟨text, rest, rfl, htext, hrest⟩ := hq
        exact .block htext hrest
      · simp [step, hs, hs'] at h
  | line =>
    rcases hc : endsLine c with _ | _
    · have hstep : step .line c = some .line := by simp [step, hc]
      obtain rfl := Option.some.inj (hstep.symm.trans h)
      obtain ⟨text, d, rest, rfl, htext, hd, hrest⟩ := hq
      exact ⟨c :: text, d, rest, rfl, List.forall_mem_cons.mpr ⟨hc, htext⟩, hd, hrest⟩
    · have hstep : step .line c = some .outside := by simp [step, hc]
      obtain rfl := Option.some.inj (hstep.symm.trans h)
      exact ⟨[], c, cs, rfl, nofun, hc, hq⟩
  | block =>
    by_cases hs : c = '*'
    · subst hs
      cases h
      exact hq
    · have hstep : step .block c = some .block := by simp [step, hs]
      obtain rfl := Option.some.inj (hstep.symm.trans h)
      exact EndsBlock.cons hq fun h => absurd h hs
  | star =>
    by_cases hs : c = '/'
    · subst hs
      cases h
      exact ⟨[], cs, rfl, Scanner.keepsOpen_nil, hq⟩
    · by_cases hs' : c = '*'
      · subst hs'
        cases h
        exact EndsBlock.cons hq fun _ => by simp
      · have hstep : step .star c = some .block := by simp [step, hs, hs']
        obtain rfl := Option.some.inj (hstep.symm.trans h)
        exact (EndsBlock.cons hq fun h => absurd h hs').cons fun _ => by simp [hs]

theorem demands_of_read : ∀ {cs : List Char} {p : Place}, read p cs = some .outside → Demands p cs
  | [], p, h => by
    obtain rfl := Option.some.inj h
    exact .nil
  | c :: cs, p, h => by
    obtain ⟨q, hstep, hq⟩ := Option.bind_eq_some_iff.mp h
    exact demands_of_step hstep (demands_of_read hq)

/-- **A text is of complete comments** just if its reader is outside of comments in the end. -/
theorem onlyComments_iff : OnlyComments cs ↔ read .outside cs = some .outside :=
  ⟨read_of_onlyComments, demands_of_read⟩

/-! ## Code behind comments -/

/-- What is left of a text from its first character of code on, where the text from the last place
outside of comments on is held: a slash that begins no comment is code, and so is a block that does
not end. -/
def skipFrom (held : List Char) : Place → List Char → List Char
  | .outside, [] | .line, [] => []
  | _, [] => held
  | p, c :: cs =>
    let held := if p == .outside then c :: cs else held
    match step p c with
    | some q => skipFrom held q cs
    | none => held

/-- What is left of a text from its first character of code on. -/
def skip (cs : List Char) : List Char := skipFrom [] .outside cs

theorem skipFrom_outside (held : List Char) : ∀ cs : List Char,
    skipFrom held .outside cs = skip cs
  | [] => rfl
  | _ :: _ => rfl

theorem skipFrom_append : ∀ {front : List Char} {p : Place} {held : List Char},
    read p front = some .outside → skipFrom held p (front ++ cs) = skip cs
  | [], p, held, h => by
    obtain rfl := Option.some.inj h
    exact skipFrom_outside held cs
  | c :: front, p, held, h => by
    obtain ⟨q, hstep, hq⟩ := Option.bind_eq_some_iff.mp h
    rw [List.cons_append, skipFrom, hstep]
    exact skipFrom_append hq

/-- **Complete comments before a text** do not change where its code begins. -/
theorem skip_append {front : List Char} (h : OnlyComments front) (cs : List Char) :
    skip (front ++ cs) = skip cs :=
  skipFrom_append (onlyComments_iff.mp h)

example : skip "// a\n/* b **/ x / y".toList = "x / y".toList := by decide

end Comments

end SchemaForge.Code
