import SchemaForge.Proofs.Code.Clear
import SchemaForge.Proofs.Code.Escapes

/-!
# Keys of an object literal

The keys of an object literal are the literals that stand directly between its braces and have a
colon behind them.

* `objectKeys`: the keys in the text of an object literal.
* `Scanner.quietScan`: the scanner, which stops at a literal directly between the braces;
  **`keysFrom_of_quietScan`**: what it goes over has no key.
* `keysFrom_quoted`, `quietScan_comment`: literals and comments between the braces.
* `Keyless`, `Shut`: code without a literal of its own, and a value without a key of its own.
* `Holds`, `LinesHold`: code and lines with given keys; **`objectKeys_braces`**: the keys between
  braces are those of the lines.
-/

namespace SchemaForge.Code

namespace Scanner

/-- The key that begins with a character. -/
def keyAt (s : State) (c : Char) (cs : List Char) : List String :=
  if s.isTop && c == '"' then
    match readQuoted cs with
    | some (key, ':' :: _) => [String.ofList key]
    | _ => []
  else []

/-- The keys in a text. -/
def keysFrom (s : State) : List Char → List String
  | [] => []
  | c :: cs => keyAt s c cs ++
    match step s c with
    | some t => keysFrom t cs
    | none => []

/-- One character, which does not begin a literal directly between the braces. -/
def quietStep (s : State) (c : Char) : Option State :=
  if s.isTop && c == '"' then none else step s c

/-- A text without such a literal. -/
def quietScan (s : State) (cs : List Char) : Option State := cs.foldlM quietStep s

variable {s t u : State} {c : Char} {cs ds : List Char} {awaited : List Char}

theorem keysFrom_cons (h : step s c = some t) (cs : List Char) :
    keysFrom s (c :: cs) = keyAt s c cs ++ keysFrom t cs := by
  rw [keysFrom, h]

theorem quietScan_eq (s : State) (cs : List Char) :
    quietScan s cs = clearScan (· == '"') s cs := rfl

theorem quietScan_append (h : quietScan s cs = some t) :
    quietScan s (cs ++ ds) = quietScan t ds := by
  rw [quietScan_eq] at h ⊢
  exact clearScan_append h

/-- **What is scanned quietly has no key.** -/
theorem keysFrom_of_quietScan (rest : List Char) : ∀ {cs : List Char} {s : State},
    quietScan s cs = some t → keysFrom s (cs ++ rest) = keysFrom t rest
  | [], s, h => by
    cases h
    rfl
  | c :: cs, s, h => by
    obtain ⟨hnot, u, hstep, h⟩ := clearScan_cons_iff.mp h
    rw [List.cons_append, keysFrom_cons hstep, keyAt, hnot, if_neg (by decide), List.nil_append,
      keysFrom_of_quietScan rest h]

/-! ## Texts that are scanned quietly -/

theorem quietScan_of_not_mark (h : ∀ c ∈ cs, isMark c = false) :
    quietScan ⟨.code, awaited⟩ cs = some ⟨.code, awaited⟩ := by
  refine clearScan_of_not_mark h fun c hc => ?_
  have := h c hc
  simp only [isMark, Bool.or_eq_false_iff] at this
  exact this.1.1.1

/-! ## Literals and comments -/

/-- **A literal between the braces** is a key if a colon stands behind it. -/
theorem keysFrom_quoted (cs rest : List Char) :
    keysFrom top ('"' :: Quoted.encode cs ++ '"' :: rest) =
      (if rest.head? = some ':' then [String.ofList cs] else []) ++ keysFrom top rest := by
  have hstep : step top '"' = some ⟨.string, ['\x7d']⟩ := rfl
  have hkey : keyAt top '"' (Quoted.encode cs ++ '"' :: rest) =
      if rest.head? = some ':' then [String.ofList cs] else [] := by
    rw [keyAt, if_pos (by decide), readQuoted_encode]
    cases rest with
    | nil => rfl
    | cons c rest =>
      by_cases hc : c = ':'
      · subst hc
        rfl
      · simp [hc]
  have hbody : Quoted.encode cs ++ '"' :: rest = Quoted.encode cs ++ ['"'] ++ rest := by simp
  rw [List.cons_append, keysFrom_cons hstep, hkey, hbody,
    keysFrom_of_quietScan rest (clearScan_encode _ cs)]
  rfl

/-- **A comment** has no key. -/
theorem quietScan_comment {text indent : String} (ht : isBlank text = false)
    (hi : ∀ c ∈ indent.toList, c = ' ') :
    quietScan top (docComment text indent).toList = some top :=
  clearScan_comment rfl rfl rfl ht hi

end Scanner

/-- The keys in the text of an object literal. -/
def objectKeys (text : String) : List String := Scanner.keysFrom {} text.toList

/-! ## Code between the braces -/

open Scanner (top keysFrom quietScan)

variable {code code' : Code} {lines : List Code} {words : String}

/-- Code without a literal outside its own brackets. -/
def Keyless (code : Code) : Prop := quietScan top (text code).toList = some top

/-- A value without a key of its own, which ends where its code does. -/
def Shut (code : Code) : Prop :=
  ∀ rest, keysFrom top ((text code).toList ++ ',' :: rest) = keysFrom top (',' :: rest)

/-- Code that holds some keys, wherever it stands between the braces. -/
def Holds (code : Code) (keys : List String) : Prop :=
  ∀ rest, keysFrom top ((text code).toList ++ rest) = keys ++ keysFrom top rest

theorem Keyless.append (h : Keyless code) (h' : Keyless code') : Keyless (code ++ code') :=
  Clear.append h h'

theorem Keyless.holds (h : Keyless code) : Holds code [] := fun rest =>
  Scanner.keysFrom_of_quietScan rest h

theorem Keyless.shut (h : Keyless code) : Shut code := fun rest => h.holds (',' :: rest)

theorem shut_quoted (w : Wording) : Shut [.quoted w] := by
  intro rest
  have htext : (text [.quoted w]).toList ++ ',' :: rest =
      '"' :: Quoted.encode w.text.toList ++ '"' :: ',' :: rest := by
    rw [text_singleton, Piece.text, quote, String.toList_ofList]
    simp
  rw [htext, Scanner.keysFrom_quoted]
  rfl

theorem keyless_plain (h : quietScan top words.toList = some top) : Keyless [.plain words] :=
  clear_plain h

theorem keyless_flatten {l : List Code} (h : ∀ c ∈ l, Keyless c) : Keyless l.flatten :=
  clear_flatten h

/-- Balanced code between words that open and close around it. -/
theorem keyless_between {x : Char} {opening closing : String}
    (ho : quietScan top opening.toList = some ⟨.code, [x, '\x7d']⟩)
    (hc : quietScan ⟨.code, [x, '\x7d']⟩ closing.toList = some top) (h : Balanced code) :
    Keyless ([.plain opening] ++ code ++ [.plain closing]) :=
  clear_between ho hc (h.clearScan (Nat.le_refl 2))

/-- **A call of balanced arguments.** -/
theorem keyless_apply {call : Call} {x : Char} {l : List Code}
    (ho : quietScan top call.opening.toList = some ⟨.code, [x, '\x7d']⟩)
    (hb : scanWords [] call.between = some [])
    (hc : quietScan ⟨.code, [x, '\x7d']⟩ call.closing.toList = some top)
    (h : ∀ c ∈ l, Balanced c) : Keyless (call.apply l) :=
  keyless_between ho hc (scan_join hb h)

theorem quietScan_indentation (awaited : List Char) (depth : Nat) :
    quietScan ⟨.code, awaited⟩ (indentation depth).toList = some ⟨.code, awaited⟩ :=
  Scanner.clearScan_indentation rfl awaited depth

theorem keyless_braces {lines : List Code} (h : ∀ c ∈ lines, Balanced c) (depth : Nat) :
    Keyless (braces lines depth) :=
  clear_braces rfl h depth

/-! ## Lines -/

theorem Holds.append {keys keys' : List String} (h : Holds code keys) (h' : Holds code' keys') :
    Holds (code ++ code') (keys ++ keys') :=
  Reads.append h h'

theorem Holds.of_text {keys : List String} (h : Holds code keys) (ht : text code = text code') :
    Holds code' keys :=
  Reads.of_text h ht

theorem holds_key (w : Wording) : Holds [.quoted w, .plain ": "] [w.text] := by
  intro rest
  have htext : (text [.quoted w, .plain ": "]).toList ++ rest =
      '"' :: Quoted.encode w.text.toList ++ '"' :: ':' :: ' ' :: rest := by
    rw [text_cons, text_singleton, Piece.text, Piece.text, quote, String.toList_append,
      String.toList_ofList]
    simp
  rw [htext, Scanner.keysFrom_quoted, List.head?_cons, if_pos rfl, String.ofList_toList]
  rfl

theorem Shut.holds (h : Shut code) : Holds (code ++ [.plain ","]) [] := by
  intro rest
  have htext : (text (code ++ [.plain ","])).toList ++ rest =
      (text code).toList ++ ',' :: rest := by
    rw [text_append, text_singleton, Piece.text, String.toList_append]
    simp
  rw [htext, h rest]
  rfl

/-- **The line of a property**: a key, a colon and a value. -/
theorem holds_line (depth : Nat) (w : Wording) {value : Code} (h : Shut value) :
    Holds ([.plain (indentation depth)] ++ ([.quoted w, .plain ": "] ++ (value ++ [.plain ","])))
      [w.text] :=
  (keyless_plain (quietScan_indentation _ depth)).holds.append ((holds_key w).append h.holds)

theorem holds_comment {text indent : String} (ht : isBlank text = false)
    (hi : ∀ c ∈ indent.toList, c = ' ') : Holds [.comment text indent] [] := by
  refine Keyless.holds ?_
  rw [Keyless, text_singleton]
  exact Scanner.quietScan_comment ht hi

/-- Lines that hold some keys together. -/
def LinesHold (lines : List Code) (keys : List String) : Prop :=
  ∃ own, List.Forall₂ Holds lines own ∧ own.flatten = keys

theorem linesHold_nil : LinesHold [] [] := linesRead_nil

theorem Holds.linesHold {keys : List String} (h : Holds code keys) : LinesHold [code] keys :=
  Reads.linesRead h

theorem LinesHold.append {more : List Code} {keys keys' : List String} (h : LinesHold lines keys)
    (h' : LinesHold more keys') : LinesHold (lines ++ more) (keys ++ keys') :=
  LinesRead.append h h'

/-- **The keys of an object literal** are those of its lines. -/
theorem objectKeys_braces {keys : List String} (h : LinesHold lines keys) (depth : Nat) :
    objectKeys (text (braces lines depth)) = keys := by
  have hjoin : Holds (join "\n" lines) keys := LinesRead.join (keyless_plain rfl).holds h
  unfold braces
  split
  · rename_i hempty
    obtain rfl := List.isEmpty_iff.mp hempty
    obtain ⟨own, hown, rfl⟩ := h
    cases hown
    rfl
  · have hopen : quietScan {} "\x7b\n".toList = some top := rfl
    have hclose : quietScan top ("\n" ++ indentation depth ++ "\x7d").toList = some {} := by
      rw [String.toList_append, String.toList_append, List.append_assoc]
      exact (Scanner.quietScan_append rfl).trans
        ((Scanner.quietScan_append (quietScan_indentation _ depth)).trans rfl)
    have hend : keysFrom top ("\n" ++ indentation depth ++ "\x7d").toList = [] := by
      rw [← List.append_nil (String.toList _), Scanner.keysFrom_of_quietScan [] hclose]
      rfl
    rw [objectKeys, text_append, text_append, text_singleton, text_singleton, String.toList_append,
      String.toList_append, List.append_assoc, Piece.text, Piece.text,
      Scanner.keysFrom_of_quietScan _ hopen, hjoin, hend, List.append_nil]

end SchemaForge.Code
