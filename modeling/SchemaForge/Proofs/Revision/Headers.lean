import SchemaForge.Proofs.Code.Comments
import SchemaForge.Revision

/-!
# Headers are comments

A header is put before a module line by line. A plain line becomes a comment of its own, and a line
that looks like one is kept, whatever it is: it may go on with a block that an earlier line began,
and it may be code.

* `Header.afterLine`: what a line means by itself, outside of comments or in a block.
* `Header.Covered`: the lines of headers are complete comments, one after another;
  `covered_of_plain`, `covered_of_forall`: those of plain lines, and those of which each is covered.
* `Header.read_front`, `read_fronts`: the text that headers put before a module, read through.
* **`Plan.reviseContent_comments`**: this text is of complete comments just if the headers are
  covered, and code begins then where it began; `Header.prepend_exposes`: headers that are not.
-/

namespace SchemaForge

namespace Text

theorem isLineEnd_of_endsLine {c : Char} (h : Code.endsLine c = true) : isLineEnd c = true := by
  simp only [Code.endsLine, Bool.or_eq_true, beq_iff_eq] at h
  rcases h with ((rfl | rfl) | h) | h
  · rfl
  · rfl
  · simp [isLineEnd, h]
  · simp [isLineEnd, h]

/-- **No line has a line end in it.** -/
theorem not_isLineEnd_of_mem_linesFrom {line : List Char} : ∀ {cs current : List Char},
    (∀ c ∈ current.reverse, isLineEnd c = false) → line ∈ linesFrom current cs →
      ∀ c ∈ line, isLineEnd c = false := by
  intro cs current hcurrent h
  fun_induction linesFrom current cs with
  | case1 => cases h
  | case2 current hne =>
    obtain rfl := List.mem_singleton.mp h
    exact hcurrent
  | case3 current rest ih =>
    rcases List.mem_cons.mp h with rfl | h
    · exact hcurrent
    · exact ih (List.forall_mem_nil _) h
  | case4 current c rest _ _ ih =>
    rcases List.mem_cons.mp h with rfl | h
    · exact hcurrent
    · exact ih (List.forall_mem_nil _) h
  | case5 current c rest _ hc ih =>
    refine ih ?_ h
    rw [List.reverse_cons, List.forall_mem_append, List.forall_mem_singleton]
    exact ⟨hcurrent, eq_false_of_ne_true hc⟩

theorem endsLine_of_mem_lines {cs line : List Char} (h : line ∈ lines cs) :
    ∀ c ∈ line, Code.endsLine c = false := by
  intro c hc
  have hnot := not_isLineEnd_of_mem_linesFrom (List.forall_mem_nil _) h c hc
  rcases hend : Code.endsLine c with _ | _
  · rfl
  · rw [isLineEnd_of_endsLine hend] at hnot
    cases hnot

end Text

namespace Header

open Code Code.Comments

variable {p q : Place} {header : String} {line : List Char} {headers : List String}

/-! ## Lines -/

/-- Whether a line is written as a comment of its own. -/
def isPlain (line : List Char) : Bool := !(looksLikeComment line || (Text.strip line).isEmpty)

/-- The lines of a header, as they are given. -/
def ownLines (header : String) : List (List Char) := Text.lines (trimNewlines header.toList)

/-- Where a line leads. A plain line outside of comments is a comment; any other one is taken as it
is, and so is a plain line in a block. -/
def afterLine (p : Place) (line : List Char) : Option Place :=
  if p = .outside ∧ isPlain line = true then some .outside else read p (line ++ ['\n'])

/-- The lines of headers are complete comments. The last header stands first in a module. -/
def Covered (headers : List String) : Prop :=
  (headers.reverse.flatMap ownLines).foldlM afterLine .outside = some .outside

instance (headers : List String) : Decidable (Covered headers) :=
  inferInstanceAs (Decidable (_ = _))

/-- Where a line can begin. -/
def LineStart (p : Place) : Prop := p = .outside ∨ p = .block

theorem lineStart_of_read {cs : List Char} (h : read p (cs ++ ['\n']) = some q) : LineStart q := by
  obtain ⟨p', -, h⟩ := Option.bind_eq_some_iff.mp (read_append.symm.trans h)
  cases p' with
  | slash => cases h
  | outside | line =>
    cases h
    exact .inl rfl
  | block | star =>
    cases h
    exact .inr rfl

theorem lineStart_of_afterLine (h : afterLine p line = some q) : LineStart q := by
  unfold afterLine at h
  split_ifs at h with hplain
  · cases h
    exact .inl rfl
  · exact lineStart_of_read h

theorem LineStart.read_newline (h : LineStart p) : read p ['\n'] = some p := by
  rcases h with rfl | rfl <;> rfl

/-- **A line that is written** leads where the line leads. In a block, the two slashes before a
plain line are as good as any text. -/
theorem read_commentLine (hp : LineStart p) (hline : ∀ c ∈ line, endsLine c = false) :
    read p (commentLine line ++ ['\n']) = afterLine p line := by
  rcases hkept : looksLikeComment line || (Text.strip line).isEmpty with _ | _
  · have hplain : isPlain line = true := by rw [isPlain, hkept, Bool.not_false]
    have hwritten : commentLine line = '/' :: '/' :: ' ' :: line := if_neg (by simp [hkept])
    rw [hwritten]
    rcases hp with rfl | rfl
    · have hcomment : ∀ c ∈ ' ' :: line, endsLine c = false :=
        List.forall_mem_cons.mpr ⟨rfl, hline⟩
      rw [afterLine, if_pos ⟨rfl, hplain⟩]
      change read .line ((' ' :: line) ++ ['\n']) = _
      rw [read_trans (read_line hcomment)]
      rfl
    · rw [afterLine, if_neg nofun]
      rfl
  · have hplain : isPlain line = false := by rw [isPlain, hkept, Bool.not_true]
    have hwritten : commentLine line = line := if_pos hkept
    rw [hwritten, afterLine, if_neg (by simp [hplain])]

/-- **Lines that are written**, one after another: the place between two of them is one where a line
can begin. -/
theorem read_commentLines : ∀ {lines : List (List Char)} {p : Place}, LineStart p →
    (∀ line ∈ lines, ∀ c ∈ line, endsLine c = false) →
    read p (lines.flatMap fun line => commentLine line ++ ['\n']) = lines.foldlM afterLine p
  | [], p, _, _ => rfl
  | line :: lines, p, hp, h => by
    rw [List.forall_mem_cons] at h
    rw [List.flatMap_cons, read_append, read_commentLine hp h.1, List.foldlM_cons]
    refine Option.bind_congr fun q hq => ?_
    exact read_commentLines (lineStart_of_afterLine hq) h.2

theorem lineStart_of_foldlM : ∀ {lines : List (List Char)} {p : Place}, LineStart p →
    lines.foldlM afterLine p = some q → LineStart q
  | [], p, hp, h => by
    obtain rfl := Option.some.inj h
    exact hp
  | line :: lines, p, _, h => by
    rw [List.foldlM_cons] at h
    obtain ⟨p', hstep, h⟩ := Option.bind_eq_some_iff.mp h
    exact lineStart_of_foldlM (lineStart_of_afterLine hstep) h

/-! ## Headers -/

/-- The text that a header puts before a module. -/
def front (header : String) : String :=
  String.ofList ("\n".toList.intercalate (lines header)) ++ "\n\n"

/-- Line ends before texts are line ends behind texts, with one before all of them. -/
theorem newline_flatMap (f : List Char → List Char) (xs : List (List Char)) :
    xs.flatMap (fun x => '\n' :: f x) ++ ['\n'] = '\n' :: xs.flatMap fun x => f x ++ ['\n'] := by
  induction xs with
  | nil => rfl
  | cons x xs ih => simp [ih]

/-- **The text before a module, line by line**, with an empty line behind it. A header without lines
is two line ends. -/
theorem toList_front (header : String) : (front header).toList =
    (ownLines header).flatMap (fun line => commentLine line ++ ['\n']) ++
      if ownLines header = [] then ['\n', '\n'] else ['\n'] := by
  have hlines : lines header = (ownLines header).map commentLine := rfl
  rw [front, String.toList_append, String.toList_ofList, hlines]
  rcases ownLines header with _ | ⟨line, rest⟩
  · rfl
  · rw [List.map_cons, show "\n".toList = ['\n'] from rfl, Scanner.intercalate_cons,
      List.flatMap_map, if_neg (List.cons_ne_nil _ _)]
    have hrest := newline_flatMap commentLine rest
    calc commentLine line ++ rest.flatMap (fun x => '\n' :: commentLine x) ++ ['\n', '\n']
      _ = commentLine line ++ (rest.flatMap (fun x => '\n' :: commentLine x) ++ ['\n']) ++
          ['\n'] := by simp
      _ = commentLine line ++ ('\n' :: rest.flatMap fun x => commentLine x ++ ['\n']) ++
          ['\n'] := by rw [hrest]
      _ = _ := by simp

/-- **The text that a header puts before a module** leads where its lines lead. -/
theorem read_front (hp : LineStart p) :
    read p (front header).toList = (ownLines header).foldlM afterLine p := by
  have hend : ∀ {q}, LineStart q →
      read q (if ownLines header = [] then ['\n', '\n'] else ['\n']) = some q := by
    intro q hq
    split_ifs
    · exact (read_trans hq.read_newline).trans hq.read_newline
    · exact hq.read_newline
  have hlines : ∀ line ∈ ownLines header, ∀ c ∈ line, endsLine c = false := fun _ hline =>
    Text.endsLine_of_mem_lines hline
  rw [toList_front, read_append, read_commentLines hp hlines]
  rcases hfold : (ownLines header).foldlM afterLine p with _ | q
  · rfl
  · exact hend (lineStart_of_foldlM hp hfold)

/-- The text that headers put before a module. -/
def fronts : List String → String
  | [] => ""
  | header :: headers => fronts headers ++ front header

theorem toList_fronts (headers : List String) :
    (fronts headers).toList = headers.reverse.flatMap fun header => (front header).toList := by
  induction headers with
  | nil => rfl
  | cons header headers ih => simp [fronts, ih]

/-- **The text that headers put before a module** leads where all their lines lead. -/
theorem read_fronts : ∀ {headers : List String} {p : Place}, LineStart p →
    read p (headers.flatMap fun header => (front header).toList) =
      (headers.flatMap ownLines).foldlM afterLine p
  | [], p, _ => rfl
  | header :: headers, p, hp => by
    rw [List.flatMap_cons, List.flatMap_cons, List.foldlM_append, read_append, read_front hp]
    exact Option.bind_congr fun q hq => read_fronts (lineStart_of_foldlM hp hq)

theorem onlyComments_fronts (headers : List String) :
    OnlyComments (fronts headers).toList ↔ Covered headers := by
  rw [onlyComments_iff, toList_fronts, read_fronts (.inl rfl), Covered]

/-! ### Covered headers -/

theorem covered_cons (header : String) (h : Covered headers) :
    Covered (header :: headers) ↔ Covered [header] := by
  unfold Covered at h ⊢
  rw [List.reverse_cons, List.flatMap_append, List.foldlM_append, h]
  rfl

/-- **Headers of which each is covered** are covered together. -/
theorem covered_of_forall : ∀ {headers : List String}, (∀ header ∈ headers, Covered [header]) →
    Covered headers
  | [], _ => rfl
  | header :: headers, h => by
    rw [List.forall_mem_cons] at h
    exact (covered_cons header (covered_of_forall h.2)).mpr h.1

theorem foldlM_of_plain : ∀ {lines : List (List Char)}, (∀ line ∈ lines, isPlain line = true) →
    lines.foldlM afterLine .outside = some .outside
  | [], _ => rfl
  | line :: lines, h => by
    rw [List.forall_mem_cons] at h
    have hstep : afterLine .outside line = some .outside := if_pos ⟨rfl, h.1⟩
    rw [List.foldlM_cons, hstep]
    exact foldlM_of_plain h.2

/-- **A header of plain lines** is covered. -/
theorem covered_of_plain (h : ∀ line ∈ ownLines header, isPlain line = true) :
    Covered [header] := by
  have hown : [header].reverse.flatMap ownLines = ownLines header := List.append_nil _
  rw [Covered, hown]
  exact foldlM_of_plain h

end Header

/-! ## Modules -/

open Header Code Code.Comments

theorem Plan.reviseContent_eq (p : Plan) (content : String) :
    p.reviseContent content = fronts p.headers ++ content := by
  have hfold : ∀ headers content, List.foldl (fun content header => prepend header content)
      content headers = fronts headers ++ content := by
    intro headers
    induction headers with
    | nil => exact fun content => (String.empty_append).symm
    | cons header headers ih =>
      intro content
      have hprepend : prepend header content = front header ++ content := rfl
      rw [List.foldl_cons, ih, hprepend, fronts, String.append_assoc]
  exact hfold p.headers content

/-- **What headers put before a module** is the same text for every module. It is of complete
comments just if the lines of the headers are, and then code begins where it did. -/
theorem Plan.reviseContent_comments (header : String) (p : Plan) :
    (∃ front : String,
      (∀ content, prepend header content = front ++ content) ∧
      (OnlyComments front.toList ↔ Covered [header])) ∧
    ∃ front : String,
      (∀ content, p.reviseContent content = front ++ content) ∧
      (OnlyComments front.toList ↔ Covered p.headers) ∧
      (Covered p.headers →
        ∀ content, skip (p.reviseContent content).toList = skip content.toList) := by
  refine ⟨⟨front header, fun _ => rfl, ?_⟩, fronts p.headers, p.reviseContent_eq,
    onlyComments_fronts p.headers, fun h content => ?_⟩
  · have honly := onlyComments_fronts [header]
    rwa [fronts, fronts, String.empty_append] at honly
  · rw [p.reviseContent_eq, String.toList_append]
    exact skip_append ((onlyComments_fronts p.headers).mpr h) _

/-- A block that is kept, and a header of plain lines, an empty one and a comment. -/
def petHeaders : Plan :=
  { headers := ["/**\n * Pets\n */", "Generated for the storefront\nfrom pets.json\n\n// by hand"] }

theorem Plan.reviseContent_petHeaders :
    (∃ front : String, (∀ content, prepend "/**\n * Pets\n */" content = front ++ content) ∧
      OnlyComments front.toList) ∧
    ∃ front : String, (∀ content, petHeaders.reviseContent content = front ++ content) ∧
      OnlyComments front.toList ∧
      ∀ content, skip (petHeaders.reviseContent content).toList = skip content.toList := by
  have hblock : Covered ["/**\n * Pets\n */"] := by decide
  have hcovered : Covered petHeaders.headers := by decide
  obtain ⟨⟨front, hfront, hiff⟩, fronts, hfronts, hiffs, hskip⟩ :=
    Plan.reviseContent_comments "/**\n * Pets\n */" petHeaders
  exact ⟨⟨front, hfront, hiff.mpr hblock⟩, fronts, hfronts, hiffs.mpr hcovered, hskip hcovered⟩

namespace Header

/-- A header puts a text before a module that is not of complete comments: the module begins in a
block, or code stands before it. -/
structure Exposes (header before : String) (place : Option Place) : Prop where
  written : ∀ content, prepend header content = before ++ content
  leads : read .outside before.toList = place
  exposed : ¬ OnlyComments before.toList

theorem exposes_of_front {before : String} {place : Option Place} (hfront : front header = before)
    (hread : read .outside before.toList = place) (hne : place ≠ some .outside) :
    Exposes header before place where
  written content := by
    rw [← hfront]
    rfl
  leads := hread
  exposed honly := hne (hread.symm.trans (onlyComments_iff.mp honly))

/-- **Not every header is put before a module as comments.** A star begins an item of a list, a
block does not end, there is code behind a block, and a plain line ends the block that it stands
in. -/
theorem prepend_exposes :
    Exposes "Changes:\n* first" "// Changes:\n* first\n\n" none ∧
    Exposes "/* draft" "/* draft\n\n" (some .block) ∧
    Exposes "/* draft */ alert(1)" "/* draft */ alert(1)\n\n" none ∧
    Exposes "/*\ndraft */ alert(1)" "/*\n// draft */ alert(1)\n\n" none :=
  ⟨exposes_of_front (by decide) (by decide) (by decide),
    exposes_of_front (by decide) (by decide) (by decide),
    exposes_of_front (by decide) (by decide) (by decide),
    exposes_of_front (by decide) (by decide) (by decide)⟩

end Header

end SchemaForge
