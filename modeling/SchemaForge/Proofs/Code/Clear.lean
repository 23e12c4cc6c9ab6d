import SchemaForge.Proofs.Code.Balance

/-!
# Code between the braces of an object literal

Some characters mean something only directly between the braces of an object literal: a quote
begins a key there, a comma ends a property. Inside brackets, literals and comments they mean
nothing to the object literal around them.

* `Scanner.clearScan`: the scanner, which stops at given characters directly between the braces.
* **`clearScan_within`**, `clearScan_of_isInside`: it does not stop inside brackets, literals and
  comments; `clearScan_quote`, `clearScan_comment`: it goes over a literal and a comment as a whole.
* `Clear`: code without such a character; `clear_braces`: braces around balanced lines.
* `Call.wraps`, `Call.separates`: words of a call that leave its argument, or all of its arguments,
  clear; **`clear_apply_one`**, **`clear_apply`**.
* `Reads`, `LinesRead`: code and lines in which a reader finds given items.
-/

namespace SchemaForge.Code

namespace Scanner

/-- Directly between the braces of an object literal. -/
def top : State := ⟨.code, ['\x7d']⟩

/-- Whether a scanner is in code directly between the braces. -/
def State.isTop (s : State) : Bool := !s.mode.isInside && s.awaited == ['\x7d']

/-- One character, unless the scanner stops at it. -/
def clearStep (stops : Char → Bool) (s : State) (c : Char) : Option State :=
  if s.isTop && stops c then none else step s c

/-- A text at no character of which the scanner stops. -/
def clearScan (stops : Char → Bool) (s : State) (cs : List Char) : Option State :=
  cs.foldlM (clearStep stops) s

variable {stops : Char → Bool} {s t : State} {c : Char} {cs ds : List Char} {awaited : List Char}

theorem clearScan_cons :
    clearScan stops s (c :: cs) = (clearStep stops s c).bind (clearScan stops · cs) := rfl

theorem clearScan_append (h : clearScan stops s cs = some t) :
    clearScan stops s (cs ++ ds) = clearScan stops t ds := by
  rw [clearScan, List.foldlM_append, ← clearScan, h]
  rfl

/-- The scanner goes on if it does not stop at the first character. -/
theorem clearScan_cons_iff : clearScan stops s (c :: cs) = some t ↔
    (s.isTop && stops c) = false ∧ ∃ u, step s c = some u ∧ clearScan stops u cs = some t := by
  rw [clearScan_cons, clearStep]
  cases s.isTop && stops c <;> simp [Option.bind_eq_some_iff]

/-! ## Places where the scanner does not stop -/

theorem clearStep_of_not_stops (h : stops c = false) : clearStep stops s c = step s c :=
  if_neg (by simp [h])

theorem clearStep_of_isInside (h : s.mode.isInside) (c : Char) : clearStep stops s c = step s c :=
  if_neg (by simp [State.isTop, h])

/-- A text in a literal or a comment. -/
theorem clearScan_of_isInside
    (h : ∀ pre, pre <+: cs → ∃ u, scan s pre = some u ∧ u.mode.isInside) :
    clearScan stops s cs = scan s cs := by
  induction cs generalizing s with
  | nil => rfl
  | cons c cs ih =>
    obtain ⟨u, hu, hinside⟩ := h [] List.nil_prefix
    cases hu
    rw [clearScan_cons, clearStep_of_isInside hinside, scan_cons]
    cases hstep : step s c with
    | none => rfl
    | some t =>
      refine ih fun pre hpre => ?_
      obtain ⟨u, hu, hinside⟩ := h (c :: pre) (List.cons_prefix_cons.mpr ⟨rfl, hpre⟩)
      rw [scan_cons, hstep] at hu
      exact ⟨u, hu, hinside⟩

/-- **A text between brackets** between the braces. -/
theorem clearScan_within {outer : List Char} (ho : 2 ≤ outer.length) :
    ∀ {cs : List Char} {s : State}, scan s cs = some t →
      clearScan stops (s.within outer) cs = some (t.within outer)
  | [], s, h => by
    cases h
    rfl
  | c :: cs, s, h => by
    rw [scan_cons, Option.bind_eq_some_iff] at h
    obtain ⟨u, hu, h⟩ := h
    have hdeep : (s.within outer).isTop = false := by
      have hne : (s.within outer).awaited ≠ ['\x7d'] := fun heq => by
        have := congrArg List.length heq
        simp [State.within] at this
        omega
      simp [State.isTop, hne]
    rw [clearScan_cons, clearStep, hdeep, Bool.false_and, if_neg (by decide),
      step_within outer hu, Option.bind_some, clearScan_within ho h]

theorem clearScan_of_not_mark (hm : ∀ c ∈ cs, isMark c = false) (hs : ∀ c ∈ cs, stops c = false) :
    clearScan stops ⟨.code, awaited⟩ cs = some ⟨.code, awaited⟩ := by
  induction cs with
  | nil => rfl
  | cons c cs ih =>
    rw [List.forall_mem_cons] at hm hs
    rw [clearScan_cons, clearStep_of_not_stops hs.1]
    change (codeStep awaited c).bind _ = _
    rw [codeStep_of_not_mark hm.1, Option.bind_some, ih hm.2 hs.2]

theorem clearScan_indentation (h : stops ' ' = false) (awaited : List Char) (depth : Nat) :
    clearScan stops ⟨.code, awaited⟩ (indentation depth).toList = some ⟨.code, awaited⟩ := by
  refine clearScan_of_not_mark (fun c hc => ?_) fun c hc => ?_
  · rw [indentation_blank depth c hc]
    rfl
  · rw [indentation_blank depth c hc, h]

/-! ## Literals and comments -/

theorem clearScan_encode (awaited cs : List Char) :
    clearScan stops ⟨.string, awaited⟩ (Quoted.encode cs ++ ['"']) = some ⟨.code, awaited⟩ := by
  have hbody : clearScan stops ⟨.string, awaited⟩ (Quoted.encode cs) = some ⟨.string, awaited⟩ := by
    rw [clearScan_of_isInside, scan_encode]
    intro pre hpre
    obtain ⟨_, hmode, hscan⟩ := scan_encode_prefix cs hpre
    exact ⟨_, hscan, hmode⟩
  rw [clearScan_append hbody, clearScan_cons, clearStep_of_isInside rfl]
  rfl

/-- **A literal** at whose quotes the scanner does not stop. -/
theorem clearScan_quote (h : stops '"' = false) (awaited : List Char) (text : String) :
    clearScan stops ⟨.code, awaited⟩ (quote text).toList = some ⟨.code, awaited⟩ := by
  rw [quote, String.toList_ofList, List.cons_append, clearScan_cons, clearStep_of_not_stops h]
  exact clearScan_encode awaited text.toList

/-- **A comment** at whose marks the scanner does not stop. -/
theorem clearScan_comment (hspace : stops ' ' = false) (hslash : stops '/' = false)
    (hstar : stops '*' = false) {text indent : String} (ht : isBlank text = false)
    (hi : ∀ c ∈ indent.toList, c = ' ') :
    clearScan stops top (docComment text indent).toList = some top := by
  obtain ⟨body, htext, hbody⟩ := enclosed_comment ['\x7d'] ht hi
  have hblank : ∀ c ∈ indent.toList, isMark c = false := fun c hc => by
    rw [hi c hc]
    rfl
  have hskip : clearScan stops top indent.toList = some top :=
    clearScan_of_not_mark hblank fun c hc => by rw [hi c hc, hspace]
  have hclear : clearScan stops top (indent.toList ++ ['/', '*']) = some ⟨.comment, ['\x7d']⟩ := by
    rw [clearScan_append hskip, clearScan_cons, clearStep_of_not_stops hslash]
    change clearScan stops ⟨.slash, ['\x7d']⟩ ['*'] = _
    rw [clearScan_cons, clearStep_of_not_stops hstar]
    rfl
  have hopen : scan top (indent.toList ++ ['/', '*']) = some ⟨.comment, ['\x7d']⟩ := by
    rw [top, scan_trans (scan_of_not_mark hblank)]
    rfl
  -- the scanner stays in the comment, so it does not stop in it
  have hinside : ∀ pre, pre <+: body →
      ∃ u, scan ⟨.comment, ['\x7d']⟩ pre = some u ∧ u.mode.isInside := by
    intro pre hpre
    obtain ⟨mode, hmode, hscan⟩ := hbody.inside pre hpre
    exact ⟨_, (scan_trans hopen).symm.trans hscan, hmode⟩
  obtain ⟨⟨mode, awaited⟩, hend, hmode⟩ := hinside body List.prefix_rfl
  have htail : clearScan stops ⟨mode, awaited⟩ ['*', '/'] = scan ⟨mode, awaited⟩ ['*', '/'] := by
    cases mode with
    | code | slash => cases hmode
    | string | escape | comment | star => rfl
  have hcloses : scan ⟨mode, awaited⟩ ['*', '/'] = some top := by
    rw [← scan_trans hend, ← scan_trans hopen, ← List.append_assoc]
    exact hbody.closes
  rw [htext, List.append_assoc, clearScan_append hclear,
    clearScan_append ((clearScan_of_isInside hinside).trans hend), htail, hcloses]

end Scanner

/-! ## Clear code -/

open Scanner (top clearScan)

variable {stops : Char → Bool} {code code' : Code} {words : String}

/-- Code at no character of which the scanner stops. -/
def Clear (stops : Char → Bool) (code : Code) : Prop :=
  clearScan stops top (text code).toList = some top

theorem text_append (code code' : Code) : text (code ++ code') = text code ++ text code' := by
  simp [text]

theorem text_singleton (p : Piece) : text [p] = p.text := by simp [text]

theorem clear_nil : Clear stops [] := rfl

theorem clear_plain (h : clearScan stops top words.toList = some top) :
    Clear stops [.plain words] := by
  rw [Clear, text_singleton]
  exact h

theorem clear_quoted (h : stops '"' = false) (w : Wording) : Clear stops [.quoted w] := by
  rw [Clear, text_singleton]
  exact Scanner.clearScan_quote h _ w.text

theorem Clear.of_text (h : Clear stops code) (ht : text code = text code') : Clear stops code' := by
  rwa [Clear, ← ht]

theorem Clear.append (h : Clear stops code) (h' : Clear stops code') :
    Clear stops (code ++ code') := by
  rw [Clear, text_append, String.toList_append, Scanner.clearScan_append h]
  exact h'

theorem clear_flatten {l : List Code} (h : ∀ c ∈ l, Clear stops c) : Clear stops l.flatten := by
  induction l with
  | nil => rfl
  | cons c l ih =>
    rw [List.forall_mem_cons] at h
    exact h.1.append (ih h.2)

/-- Code between words that open and close around it. -/
theorem clear_between {awaited : List Char} {opening closing : String}
    (ho : clearScan stops top opening.toList = some ⟨.code, awaited⟩)
    (hc : clearScan stops ⟨.code, awaited⟩ closing.toList = some top)
    (h : clearScan stops ⟨.code, awaited⟩ (text code).toList = some ⟨.code, awaited⟩) :
    Clear stops ([.plain opening] ++ code ++ [.plain closing]) := by
  rw [Clear, text_append, text_append, text_singleton, text_singleton, String.toList_append,
    String.toList_append, List.append_assoc]
  exact (Scanner.clearScan_append ho).trans ((Scanner.clearScan_append h).trans hc)

/-- Balanced code between brackets between the braces. -/
theorem Balanced.clearScan (h : Balanced code) {awaited : List Char} (ho : 2 ≤ awaited.length) :
    clearScan stops ⟨.code, awaited⟩ (text code).toList = some ⟨.code, awaited⟩ :=
  Scanner.clearScan_within ho (scan_text h)

theorem clear_braces (hbrace : stops '\x7b' = false) {lines : List Code}
    (h : ∀ c ∈ lines, Balanced c) (depth : Nat) : Clear stops (braces lines depth) := by
  have hopen : clearScan stops top "\x7b".toList = some ⟨.code, ['\x7d', '\x7d']⟩ := by
    change (Scanner.clearStep stops top '\x7b').bind _ = _
    rw [Scanner.clearStep_of_not_stops hbrace]
    rfl
  unfold braces
  split
  · refine clear_plain ?_
    rw [show "\x7b\x7d".toList = "\x7b".toList ++ ['\x7d'] from rfl, Scanner.clearScan_append hopen]
    rfl
  · have hjoin : Balanced (join "\n" lines) := scan_join rfl h
    have hlines : clearScan stops ⟨.code, ['\x7d', '\x7d']⟩ (text (join "\n" lines)).toList =
        some ⟨.code, ['\x7d', '\x7d']⟩ :=
      hjoin.clearScan (Nat.le_refl 2)
    have hblank : Balanced [.plain ("\n" ++ indentation depth)] := balanced_plain.mpr
      ((scanWords_append rfl).trans (scanWords_indentation _ depth))
    have hskip : clearScan stops ⟨.code, ['\x7d', '\x7d']⟩
        (text [.plain ("\n" ++ indentation depth)]).toList = some ⟨.code, ['\x7d', '\x7d']⟩ :=
      hblank.clearScan (Nat.le_refl 2)
    rw [text_singleton, Piece.text] at hskip
    refine clear_between ?_ ?_ hlines
    · rw [show "\x7b\n".toList = "\x7b".toList ++ ['\n'] from rfl, Scanner.clearScan_append hopen]
      rfl
    · rw [String.toList_append, Scanner.clearScan_append hskip]
      rfl

/-! ## Calls -/

/-- Balanced and clear code. -/
structure Sealed (stops : Char → Bool) (code : Code) : Prop where
  balanced : Balanced code
  clear : Clear stops code

theorem Sealed.append (h : Sealed stops code) (h' : Sealed stops code') :
    Sealed stops (code ++ code') :=
  ⟨h.balanced.append h'.balanced, h.clear.append h'.clear⟩

/-- Whether the words of a call leave its argument clear, which may stand directly between the
braces. -/
def Call.wraps (stops : Char → Bool) (call : Call) : Bool :=
  match clearScan stops top call.opening.toList with
  | some ⟨.code, awaited⟩ =>
    awaited.getLast? == some '\x7d' &&
      clearScan stops ⟨.code, awaited⟩ call.closing.toList == some top
  | _ => false

/-- Whether the words between the arguments of a call leave them clear. -/
def Call.separates (stops : Char → Bool) (call : Call) : Bool :=
  match clearScan stops top call.opening.toList with
  | some s => clearScan stops s call.between.toList == some s
  | none => false

variable {call : Call} {awaited : List Char}

theorem Call.wraps_iff : call.wraps stops ↔ ∃ awaited,
    clearScan stops top call.opening.toList = some ⟨.code, awaited⟩ ∧
    awaited.getLast? = some '\x7d' ∧
    clearScan stops ⟨.code, awaited⟩ call.closing.toList = some top := by
  unfold Call.wraps
  split
  · rename_i awaited ho
    simp [ho]
  · rename_i hne
    refine iff_of_false nofun ?_
    rintro ⟨awaited, ho, -⟩
    exact hne awaited ho

theorem Sealed.clearScan (h : Sealed stops code) (ha : awaited.getLast? = some '\x7d') :
    clearScan stops ⟨.code, awaited⟩ (text code).toList = some ⟨.code, awaited⟩ := by
  match awaited, ha with
  | [c], ha =>
    cases ha
    exact h.clear
  | _ :: _ :: _, _ => exact h.balanced.clearScan (Nat.le_add_left 2 _)

/-- **A call with one argument.** -/
theorem clear_apply_one (hw : call.wraps stops) (h : Sealed stops code) :
    Clear stops (call.apply [code]) := by
  obtain ⟨awaited, ho, ha, hc⟩ := Call.wraps_iff.mp hw
  exact clear_between ho hc (h.clearScan ha)

theorem clearScan_join {between : String} (ha : awaited.getLast? = some '\x7d')
    (hb : clearScan stops ⟨.code, awaited⟩ between.toList = some ⟨.code, awaited⟩) :
    ∀ {l : List Code}, (∀ c ∈ l, Sealed stops c) →
      clearScan stops ⟨.code, awaited⟩ (text (join between l)).toList = some ⟨.code, awaited⟩
  | [], _ => rfl
  | [c], h => (h c (List.mem_singleton.mpr rfl)).clearScan ha
  | c :: d :: l, h => by
    rw [List.forall_mem_cons] at h
    rw [join_cons_cons, text_append, text_cons, String.toList_append, String.toList_append,
      Scanner.clearScan_append (h.1.clearScan ha)]
    exact (Scanner.clearScan_append hb).trans (clearScan_join ha hb h.2)

/-- **A call with any arguments.** -/
theorem clear_apply (hw : call.wraps stops) (hs : call.separates stops) {l : List Code}
    (h : ∀ c ∈ l, Sealed stops c) : Clear stops (call.apply l) := by
  obtain ⟨awaited, ho, ha, hc⟩ := Call.wraps_iff.mp hw
  rw [Call.separates, ho] at hs
  exact clear_between ho hc (clearScan_join ha (beq_iff_eq.mp hs) h)

/-! ## Reading line by line -/

section Reading

variable {α : Type} {read : List Char → List α} {items items' : List α} {lines more : List Code}

/-- Code in which a reader finds some items, whatever stands behind it. -/
def Reads (read : List Char → List α) (code : Code) (items : List α) : Prop :=
  ∀ rest, read ((text code).toList ++ rest) = items ++ read rest

theorem Reads.append (h : Reads read code items) (h' : Reads read code' items') :
    Reads read (code ++ code') (items ++ items') := by
  intro rest
  rw [text_append, String.toList_append, List.append_assoc, h, h', List.append_assoc]

theorem Reads.of_text (h : Reads read code items) (ht : text code = text code') :
    Reads read code' items := by
  rwa [Reads, ← ht]

theorem reads_join (hbreak : Reads read [.plain "\n"] []) {own : List (List α)}
    (h : List.Forall₂ (Reads read) lines own) : Reads read (join "\n" lines) own.flatten := by
  induction h with
  | nil => exact fun _ => rfl
  | @cons code items lines own h hs ih =>
    cases hs with
    | nil => simpa [join] using h
    | cons h' hs => exact h.append (hbreak.append ih)

/-- Lines in which a reader finds some items together. -/
def LinesRead (read : List Char → List α) (lines : List Code) (items : List α) : Prop :=
  ∃ own, List.Forall₂ (Reads read) lines own ∧ own.flatten = items

theorem linesRead_nil : LinesRead read [] [] := ⟨[], .nil, rfl⟩

theorem Reads.linesRead (h : Reads read code items) : LinesRead read [code] items :=
  ⟨[items], .cons h .nil, List.append_nil _⟩

theorem LinesRead.append (h : LinesRead read lines items) (h' : LinesRead read more items') :
    LinesRead read (lines ++ more) (items ++ items') := by
  obtain ⟨own, hown, rfl⟩ := h
  obtain ⟨own', hown', rfl⟩ := h'
  exact ⟨own ++ own', List.rel_append hown hown', List.flatten_append⟩

theorem LinesRead.join (hbreak : Reads read [.plain "\n"] []) (h : LinesRead read lines items) :
    Reads read (join "\n" lines) items := by
  obtain ⟨own, hown, rfl⟩ := h
  exact reads_join hbreak hown

end Reading

end SchemaForge.Code
