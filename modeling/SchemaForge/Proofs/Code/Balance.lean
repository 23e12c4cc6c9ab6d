import SchemaForge.Code.Literal
import SchemaForge.Proofs.Code.Enclosed
import SchemaForge.Proofs.Code.References

/-!
# Brackets of generated code

* `Code.scan`: the brackets that are awaited behind code, piece by piece; between two pieces the
  scanner is in code.
* **`Code.scan_text`**: so the text of the code is scanned.
* `Code.Balanced`: code whose brackets match; `Call.isBalanced`: words of a call that leave its
  arguments in balance.
* `balanced_flatten`, `balanced_apply`, `balanced_braces`: what is put together of balanced parts.
-/

namespace SchemaForge.Code

/-! ## Pieces -/

/-- The brackets that are awaited behind words, if these end in code. -/
def scanWords (awaited : List Char) (words : String) : Option (List Char) :=
  match Scanner.scan ⟨.code, awaited⟩ words.toList with
  | some ⟨.code, rest⟩ => some rest
  | _ => none

/-- The brackets that are awaited behind a piece. A comment has a text and stands behind blanks
only. -/
def Piece.scan (awaited : List Char) : Piece → Option (List Char)
  | .plain words => scanWords awaited words
  | .reference _ words => scanWords awaited words
  | .quoted _ => some awaited
  | .comment text indent =>
    if !isBlank text && indent.toList.all (· == ' ') then some awaited else none

/-- The brackets that are awaited behind code. -/
def scan (awaited : List Char) (code : Code) : Option (List Char) := code.foldlM Piece.scan awaited

variable {awaited rest : List Char} {words : String} {code code' : Code} {p : Piece}

theorem scanWords_eq_some : scanWords awaited words = some rest ↔
    Scanner.scan ⟨.code, awaited⟩ words.toList = some ⟨.code, rest⟩ := by
  unfold scanWords
  split
  · rename_i h
    rw [h]
    simp
  · rename_i h
    simp only [reduceCtorEq, false_iff]
    exact h rest

theorem scanWords_append {words' : String} (h : scanWords awaited words = some rest) :
    scanWords awaited (words ++ words') = scanWords rest words' := by
  unfold scanWords
  rw [String.toList_append, Scanner.scan_trans (scanWords_eq_some.mp h)]

theorem scanWords_of_not_mark (h : ∀ c ∈ words.toList, Scanner.isMark c = false) :
    scanWords awaited words = some awaited :=
  scanWords_eq_some.mpr (Scanner.scan_of_not_mark h)

theorem scanWords_within (outer : List Char) (h : scanWords awaited words = some rest) :
    scanWords (awaited ++ outer) words = some (rest ++ outer) :=
  scanWords_eq_some.mpr (Scanner.scan_within outer (scanWords_eq_some.mp h))

theorem Piece.scan_comment {text indent : String}
    (h : Piece.scan awaited (.comment text indent) = some rest) :
    rest = awaited ∧ isBlank text = false ∧ ∀ c ∈ indent.toList, c = ' ' := by
  rw [Piece.scan] at h
  split at h
  · rename_i hc
    cases h
    simpa using hc
  · cases h

theorem Piece.scan_within (outer : List Char) (h : p.scan awaited = some rest) :
    p.scan (awaited ++ outer) = some (rest ++ outer) := by
  cases p with
  | plain words => exact scanWords_within outer h
  | reference name words => exact scanWords_within outer h
  | quoted w =>
    cases h
    rfl
  | comment text indent =>
    obtain ⟨rfl, ht, hi⟩ := scan_comment h
    rw [Piece.scan, if_pos]
    simpa [ht] using hi

/-- **A piece is scanned** from code to code. -/
theorem Piece.scan_text (h : p.scan awaited = some rest) :
    Scanner.scan ⟨.code, awaited⟩ p.text.toList = some ⟨.code, rest⟩ := by
  cases p with
  | plain words => exact scanWords_eq_some.mp h
  | reference name words => exact scanWords_eq_some.mp h
  | quoted w =>
    cases h
    rw [Piece.text, quote, String.toList_ofList]
    exact (Scanner.enclosed_quoted awaited w.text.toList).closes
  | comment text indent =>
    obtain ⟨rfl, ht, hi⟩ := scan_comment h
    obtain ⟨body, htext, hbody⟩ := Scanner.enclosed_comment rest ht hi
    rw [Piece.text, htext]
    exact hbody.closes

/-! ## Code -/

@[simp] theorem scan_nil : scan awaited [] = some awaited := rfl

theorem scan_cons : scan awaited (p :: code) = (p.scan awaited).bind (scan · code) := rfl

theorem scan_append : scan awaited (code ++ code') = (scan awaited code).bind (scan · code') :=
  List.foldlM_append

theorem scan_trans (h : scan awaited code = some rest) :
    scan awaited (code ++ code') = scan rest code' := by
  rw [scan_append, h, Option.bind_some]

theorem scan_within (outer : List Char) : ∀ {code : Code} {awaited : List Char},
    scan awaited code = some rest → scan (awaited ++ outer) code = some (rest ++ outer)
  | [], _, h => by
    cases h
    rfl
  | p :: code, awaited, h => by
    rw [scan_cons, Option.bind_eq_some_iff] at h
    obtain ⟨next, hp, h⟩ := h
    rw [scan_cons, Piece.scan_within outer hp, Option.bind_some, scan_within outer h]

theorem text_cons (p : Piece) (code : Code) : text (p :: code) = p.text ++ text code := by
  rw [text, List.map_cons, String.join_cons]
  rfl

/-- **Code is scanned** from code to code. -/
theorem scan_text : ∀ {code : Code} {awaited : List Char}, scan awaited code = some rest →
    Scanner.scan ⟨.code, awaited⟩ (text code).toList = some ⟨.code, rest⟩
  | [], _, h => by
    cases h
    rfl
  | p :: code, awaited, h => by
    rw [scan_cons, Option.bind_eq_some_iff] at h
    obtain ⟨next, hp, h⟩ := h
    rw [text_cons, String.toList_append, Scanner.scan_trans (Piece.scan_text hp)]
    exact scan_text h

/-- Code whose brackets match. -/
def Balanced (code : Code) : Prop := scan [] code = some []

theorem Balanced.scan (h : Balanced code) (awaited : List Char) :
    scan awaited code = some awaited :=
  scan_within awaited h

theorem balanced_nil : Balanced [] := rfl

theorem Balanced.append (h : Balanced code) (h' : Balanced code') : Balanced (code ++ code') :=
  (scan_trans h).trans h'

theorem balanced_plain : Balanced [.plain words] ↔ scanWords [] words = some [] := by
  unfold Balanced
  rw [scan_cons, Piece.scan]
  cases scanWords [] words <;> simp

theorem balanced_reference {name : String} :
    Balanced [.reference name words] ↔ scanWords [] words = some [] :=
  balanced_plain

theorem balanced_quoted (w : Wording) : Balanced [.quoted w] := rfl

theorem balanced_flatten {l : List Code} (h : ∀ c ∈ l, Balanced c) : Balanced l.flatten := by
  induction l with
  | nil => exact balanced_nil
  | cons c l ih =>
    rw [List.forall_mem_cons] at h
    exact h.1.append (ih h.2)

/-- Balanced code between words that open and close around it. -/
theorem balanced_between {opening closing : String} (ho : scanWords [] opening = some awaited)
    (hc : scanWords awaited closing = some []) (h : Balanced code) :
    Balanced ([.plain opening] ++ code ++ [.plain closing]) := by
  rw [Balanced, List.append_assoc, List.singleton_append, scan_cons, Piece.scan, ho,
    Option.bind_some, scan_trans (h.scan awaited), scan_cons, Piece.scan, hc]
  rfl

/-! ## Calls -/

theorem scan_join {between : String} (hb : scanWords awaited between = some awaited) :
    ∀ {l : List Code}, (∀ c ∈ l, Balanced c) → scan awaited (join between l) = some awaited
  | [], _ => rfl
  | [c], h => (h c (List.mem_singleton.mpr rfl)).scan awaited
  | c :: d :: l, h => by
    rw [List.forall_mem_cons] at h
    rw [join_cons_cons, scan_trans (h.1.scan awaited), scan_cons, Piece.scan, hb, Option.bind_some]
    exact scan_join hb h.2

/-- Whether the words of a call leave its arguments in balance. -/
def Call.isBalanced (call : Call) : Bool :=
  match scanWords [] call.opening with
  | some awaited =>
    scanWords awaited call.between == some awaited && scanWords awaited call.closing == some []
  | none => false

/-- **A call of balanced arguments** is balanced. -/
theorem balanced_apply {call : Call} (hc : call.isBalanced) {l : List Code}
    (h : ∀ c ∈ l, Balanced c) : Balanced (call.apply l) := by
  unfold Call.isBalanced at hc
  split at hc
  · rename_i awaited ho
    simp only [Bool.and_eq_true, beq_iff_eq] at hc
    rw [Balanced, Call.apply, List.cons_append, scan_cons, Piece.scan, ho, Option.bind_some,
      scan_trans (scan_join hc.1 h), scan_cons, Piece.scan, hc.2]
    rfl
  · cases hc

theorem scanWords_call {call : Call} (hc : call.isBalanced)
    (hw : ∀ awaited, scanWords awaited words = some awaited) :
    scanWords [] (call.opening ++ words ++ call.closing) = some [] := by
  unfold Call.isBalanced at hc
  split at hc
  · rename_i awaited ho
    simp only [Bool.and_eq_true, beq_iff_eq] at hc
    rw [String.append_assoc, scanWords_append ho, scanWords_append (hw awaited)]
    exact hc.2
  · cases hc

theorem balanced_each {words : List String} (h : ∀ w ∈ words, scanWords [] w = some []) :
    ∀ c ∈ each words, Balanced c :=
  List.forall_mem_map.mpr fun w hw => balanced_plain.mpr (h w hw)

/-! ## Lines -/

theorem indentation_blank (depth : Nat) : ∀ c ∈ (indentation depth).toList, c = ' ' := by
  intro c hc
  rw [indentation, String.toList_ofList] at hc
  exact List.eq_of_mem_replicate hc

theorem scanWords_indentation (awaited : List Char) (depth : Nat) :
    scanWords awaited (indentation depth) = some awaited :=
  scanWords_of_not_mark fun c hc => by
    rw [indentation_blank depth c hc]
    rfl

theorem balanced_braces {lines : List Code} (h : ∀ c ∈ lines, Balanced c) (depth : Nat) :
    Balanced (braces lines depth) := by
  unfold braces
  split
  · rfl
  · have hclose : scanWords ['\x7d'] ("\n" ++ indentation depth ++ "\x7d") = some [] := by
      have hopen : scanWords ['\x7d'] "\n" = some ['\x7d'] := rfl
      rw [String.append_assoc, scanWords_append hopen,
        scanWords_append (scanWords_indentation _ depth)]
      rfl
    have hjoin : scan ['\x7d'] (join "\n" lines) = some ['\x7d'] := scan_join rfl h
    rw [Balanced, List.append_assoc]
    change scan ['\x7d'] (join "\n" lines ++ _) = _
    rw [scan_trans hjoin, scan_cons, Piece.scan, hclose]
    rfl

theorem balanced_commentedLine {doc line : Code} (hd : Balanced doc) (hl : Balanced line) :
    ∀ c ∈ commentedLine doc line, Balanced c := by
  unfold commentedLine
  split
  · exact List.forall_mem_singleton.mpr hl
  · exact List.forall_mem_cons.mpr ⟨hd, List.forall_mem_singleton.mpr hl⟩

end SchemaForge.Code
