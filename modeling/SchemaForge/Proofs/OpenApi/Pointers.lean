import Mathlib
import SchemaForge.OpenApi.Pointer
import SchemaForge.Proofs.Value.Mapping

/-!
# Addresses of values

Every value of a document has an address, a path of keys and indices from the root, and a reference
that spells it.

* `Addresses`: the path leads to the value; `spell`: the reference that spells a path.
* **`tokens_spell`**: the tokens of a spelled path are its keys and indices again.
* `keysOf`: the keys and indices that a reference names, by two replacements; `tokens_eq_keysOf`.
* `Leads`: the tokens of a reference lead to the value; `Legible`: no token stops the walk there.
* **`walk_cases`**: what a walk finds, and what stops it.
-/

namespace SchemaForge.OpenApi.Pointer

/-! ## Paths and their spelling -/

/-- A step down in a document. -/
inductive Step where
  | key (k : String)
  | index (n : Nat)
  deriving DecidableEq, Repr

/-- A path leads down from a value to another one. -/
inductive Addresses (v : Value) : List Step → Value → Prop
  | here : Addresses v [] v
  | key {k : String} {path : List Step} {e : Mapping} {w : Value} : e.get? k = some w →
    Addresses v path w → Addresses v (.key k :: path) (.map e)
  | index {n : Nat} {path : List Step} {items : List Value} {w : Value} : items[n]? = some w →
    Addresses v path w → Addresses v (.index n :: path) (.list items)

/-- A character of a key as it is written. -/
def escapeChar (c : Char) : List Char :=
  if c = '~' then ['~', '0'] else if c = '/' then ['~', '1'] else [c]

/-- A key as it is written. -/
def escape (key : List Char) : List Char := key.flatMap escapeChar

namespace Step

/-- The text of a step: a key, or an index in decimal. -/
def token : Step → List Char
  | .key k => k.toList
  | .index n => (toString n).toList

/-- A step as it is written. -/
def spelled : Step → List Char
  | .key k => escape k.toList
  | .index n => (toString n).toList

end Step

/-- The reference that spells a path. -/
def spell (path : List Step) : String :=
  String.ofList ('#' :: '/' :: ['/'].intercalate (path.map Step.spelled))

/-! ### Escapes -/

theorem unescape_cons {c : Char} (h : c ≠ '~') (cs : List Char) :
    unescape (c :: cs) = c :: unescape cs := by
  rw [unescape]
  all_goals exact fun _ h' => absurd h' h

theorem unescape_escapeChar (c : Char) (cs : List Char) :
    unescape (escapeChar c ++ cs) = c :: unescape cs := by
  unfold escapeChar
  split_ifs with ht hs
  · rw [ht]
    rfl
  · rw [hs]
    rfl
  · exact unescape_cons ht cs

/-- **A written key is read back.** -/
theorem unescape_escape : ∀ key : List Char, unescape (escape key) = key
  | [] => rfl
  | c :: key => by
    rw [escape, List.flatMap_cons, unescape_escapeChar, ← escape, unescape_escape key]

theorem unescape_of_not_mem : ∀ {cs : List Char}, '~' ∉ cs → unescape cs = cs
  | [], _ => rfl
  | c :: cs, h => by
    rw [List.mem_cons, not_or] at h
    rw [unescape_cons (Ne.symm h.1), unescape_of_not_mem h.2]

theorem slash_not_mem_escape (key : List Char) : '/' ∉ escape key := by
  intro h
  obtain ⟨c, -, hc⟩ := List.mem_flatMap.mp h
  unfold escapeChar at hc
  split_ifs at hc with ht hs
  · exact absurd hc (by decide)
  · exact absurd hc (by decide)
  · exact hs (List.mem_singleton.mp hc).symm

/-! ### Indices -/

theorem mem_toString_index {n : Nat} {c : Char} (h : c ∈ (toString n).toList) : c.isDigit := by
  rw [Nat.toString_eq_repr, Nat.toList_repr] at h
  exact Nat.isDigit_of_mem_toDigits (by decide) (by decide) h

theorem decimalValue?_of_isDigit {c : Char} (h : c.isDigit) :
    Text.decimalValue? c = some (c.toNat - 48) := by
  have hrange : 48 ≤ c.toNat ∧ c.toNat < 48 + 10 := by
    simp only [Char.isDigit, Bool.and_eq_true, decide_eq_true_eq] at h
    exact ⟨h.1, Nat.lt_succ_of_le h.2⟩
  unfold Text.decimalValue? Text.decimalZeros
  rw [List.find?_cons_of_pos (by simpa using hrange)]
  rfl

theorem isDigit_of_decimalValue? {c : Char} (h : (Text.decimalValue? c).isSome) :
    Text.isDigit c = true := by
  rw [Text.isDigit, h, Bool.true_or]

theorem foldl_decimalValue? : ∀ (cs : List Char) (n : Nat), (∀ c ∈ cs, c.isDigit) →
    cs.foldl (fun acc c => acc.bind fun n => (Text.decimalValue? c).map (10 * n + ·)) (some n) =
      some (Nat.ofDigitChars 10 cs n)
  | [], _, _ => rfl
  | c :: cs, n, h => by
    rw [List.forall_mem_cons] at h
    rw [List.foldl_cons, Option.bind_some, decimalValue?_of_isDigit h.1, Option.map_some,
      foldl_decimalValue? cs _ h.2, Nat.ofDigitChars_cons]
    rfl

/-- **A written index is read back.** -/
theorem readDecimal?_index (n : Nat) : Text.readDecimal? (toString n).toList = some n := by
  have h := foldl_decimalValue? (toString n).toList 0 fun c hc => mem_toString_index hc
  rw [Nat.toString_eq_repr, Nat.toList_repr] at h ⊢
  rw [Nat.ofDigitChars_ten_toDigits] at h
  rcases hd : Nat.toDigits 10 n with _ | ⟨c, cs⟩
  · exact absurd hd Nat.toDigits_ne_nil
  · rw [hd] at h
    exact h

theorem index_index {n : Nat} (h : n < 10 ^ maxIndexDigits) :
    index (toString n).toList = .ok n := by
  have hlength : (toString n).toList.length ≤ maxIndexDigits := by
    rw [Nat.toString_eq_repr, Nat.toList_repr]
    exact (Nat.length_toDigits_le_iff (by decide) (by decide)).mpr h
  rw [index, if_neg (Nat.not_lt.mpr hlength), readDecimal?_index]

/-! ### Tokens -/

theorem split_eq_splitOn (sep : Char) : ∀ cs : List Char, Text.split sep cs = cs.splitOn sep
  | [] => rfl
  | c :: cs => by
    rw [Text.split, split_eq_splitOn sep cs, List.splitOn_cons_eq_if_modifyHead]
    split_ifs with h
    · rfl
    · rcases hs : cs.splitOn sep with _ | ⟨piece, pieces⟩
      · exact absurd hs (List.splitOn_ne_nil sep cs)
      · rfl

theorem spelled_spec (s : Step) : '/' ∉ s.spelled ∧ unescape s.spelled = s.token := by
  cases s with
  | key k => exact ⟨slash_not_mem_escape _, unescape_escape _⟩
  | index n =>
    have hdigit {c : Char} (hc : c.isDigit = false) : c ∉ (toString n).toList := fun h => by
      rw [mem_toString_index h] at hc
      cases hc
    exact ⟨hdigit rfl, unescape_of_not_mem (hdigit rfl)⟩

/-- **The tokens of a spelled path are its keys and indices.** -/
theorem tokens_spell {path : List Step} (h : path ≠ []) : ∃ text,
    local? (spell path) = some text ∧ tokens text = path.map Step.token := by
  refine ⟨['/'].intercalate (path.map Step.spelled), ?_, ?_⟩
  · rw [local?, spell, String.toList_ofList]
    rfl
  · rw [tokens, split_eq_splitOn, List.splitOn_intercalate, List.map_map]
    · exact List.map_congr_left fun s _ => (spelled_spec s).2
    · intro l hl
      obtain ⟨s, -, rfl⟩ := List.mem_map.mp hl
      exact (spelled_spec s).1
    · simpa using h

/-! ### Replacement -/

/-- One character in place of two, wherever these stand next to each other, from left to right. -/
def replacePair (a b c : Char) : List Char → List Char
  | x :: y :: rest =>
    if x = a ∧ y = b then c :: replacePair a b c rest else x :: replacePair a b c (y :: rest)
  | cs => cs

theorem replacePair_pair (a b c : Char) (cs : List Char) :
    replacePair a b c (a :: b :: cs) = c :: replacePair a b c cs := by
  rw [replacePair, if_pos ⟨rfl, rfl⟩]

theorem replacePair_cons {a b c x : Char} {cs : List Char} (h : x = a → cs.head? ≠ some b) :
    replacePair a b c (x :: cs) = x :: replacePair a b c cs := by
  rcases cs with _ | ⟨y, cs⟩
  · rfl
  · rw [replacePair, if_neg]
    rintro ⟨hx, rfl⟩
    exact h hx rfl

theorem replacePair_cons_of_ne {a b c x : Char} {cs : List Char} (h : x ≠ a) :
    replacePair a b c (x :: cs) = x :: replacePair a b c cs :=
  replacePair_cons fun hx => absurd hx h

/-- A replacement puts no other character than its own first. -/
theorem head?_replacePair {a b c x : Char} {cs : List Char} (hx : x ≠ c)
    (h : (replacePair a b c cs).head? = some x) : cs.head? = some x := by
  rcases cs with _ | ⟨y, _ | ⟨z, cs⟩⟩
  · exact h
  · exact h
  · rw [replacePair] at h
    split_ifs at h
    · exact absurd (Option.some.inj h).symm hx
    · exact h

/-- The key that a text spells: `~1` is read as a slash and after that `~0` as a tilde. -/
def keyOf (text : List Char) : List Char := replacePair '~' '0' '~' (replacePair '~' '1' '/' text)

/-- **Undoing the escapes of a key is replacing twice**, slashes first. -/
theorem unescape_eq_keyOf (cs : List Char) : unescape cs = keyOf cs := by
  unfold keyOf
  induction cs using unescape.induct with
  | case1 rest ih => rw [unescape, replacePair_pair, replacePair_cons_of_ne (by decide), ih]
  | case2 rest ih =>
    have hzero : replacePair '~' '1' '/' ('~' :: '0' :: rest) =
        '~' :: '0' :: replacePair '~' '1' '/' rest := by
      rw [← replacePair_cons_of_ne (by decide : '0' ≠ '~')]
      exact replacePair_cons (by simp)
    rw [unescape, hzero, replacePair_pair, ih]
  | case3 c rest h1 h0 ih =>
    have hone : c = '~' → rest.head? ≠ some '1' := by
      rintro rfl h
      obtain ⟨rest', rfl⟩ := List.head?_eq_some_iff.mp h
      exact h1 rest' rfl rfl
    have hzero : c = '~' → (replacePair '~' '1' '/' rest).head? ≠ some '0' := by
      rintro rfl h
      obtain ⟨rest', rfl⟩ := List.head?_eq_some_iff.mp (head?_replacePair (by decide) h)
      exact h0 rest' rfl rfl
    rw [unescape, replacePair_cons hone, replacePair_cons hzero, ih]
    · exact h1
    · exact h0
  | case4 => rfl

/-- The keys and indices that the text of a reference names, between its slashes. -/
def keysOf (text : List Char) : List (List Char) := (text.splitOn '/').map keyOf

theorem tokens_eq_keysOf (text : List Char) : tokens text = keysOf text := by
  rw [tokens, split_eq_splitOn]
  exact List.map_congr_left fun key _ => unescape_eq_keyOf key

theorem keysOf_of_not_mem {text : List Char} (h : '/' ∉ text) : keysOf text = [keyOf text] := by
  rw [keysOf, List.splitOn_eq_singleton h, List.map_singleton]

/-! ## What tokens lead to -/

/-- The tokens lead down from a value to another one: by key in a mapping, by index in a list. -/
inductive Leads (v : Value) : List (List Char) → Value → Prop
  | here : Leads v [] v
  | key {token : List Char} {rest : List (List Char)} {e : Mapping} {w : Value} :
    e.get? (String.ofList token) = some w → Leads v rest w → Leads v (token :: rest) (.map e)
  | index {token : List Char} {rest : List (List Char)} {n : Nat} {items : List Value} {w : Value} :
    Text.readDecimal? token = some n → items[n]? = some w → Leads v rest w →
    Leads v (token :: rest) (.list items)

theorem leads_map {token : List Char} {ts : List (List Char)} {e : Mapping} {u : Value} :
    Leads u (token :: ts) (.map e) ↔ ∃ w, e.get? (String.ofList token) = some w ∧ Leads u ts w := by
  refine ⟨fun h => ?_, fun ⟨w, hw, h⟩ => .key hw h⟩
  cases h with
  | key hw h => exact ⟨_, hw, h⟩

/-- A key that is no index leads down from mappings only. -/
theorem Leads.map_of_head {token : List Char} {ts : List (List Char)} {u v : Value}
    (h : Leads u (token :: ts) v) (ht : Text.readDecimal? token = none) : ∃ e, v = .map e := by
  cases h with
  | key => exact ⟨_, rfl⟩
  | index hn =>
    rw [ht] at hn
    cases hn

/-- A token is read without a fault: if it is of digits, these are decimal and not too many. -/
def Readable (token : List Char) : Prop :=
  token.all Text.isDigit → (∀ c ∈ token, (Text.decimalValue? c).isSome) ∧
    token.length ≤ maxIndexDigits

theorem foldl_decimalValue?_eq_none : ∀ cs : List Char,
    cs.foldl (fun acc c => acc.bind fun n => (Text.decimalValue? c).map (10 * n + ·)) none = none
  | [] => rfl
  | _ :: cs => foldl_decimalValue?_eq_none cs

theorem foldl_decimalValue?_isSome : ∀ (cs : List Char) (n : Nat),
    (cs.foldl (fun acc c => acc.bind fun n => (Text.decimalValue? c).map (10 * n + ·))
      (some n)).isSome ↔ ∀ c ∈ cs, (Text.decimalValue? c).isSome
  | [], n => by simp
  | c :: cs, n => by
    rw [List.foldl_cons, List.forall_mem_cons, Option.bind_some]
    rcases Text.decimalValue? c with _ | k
    · rw [Option.map_none, foldl_decimalValue?_eq_none]
      simp
    · rw [Option.map_some, foldl_decimalValue?_isSome cs]
      simp

/-- A token spells a number when its characters, of which there are some, are decimal digits. -/
theorem readDecimal?_isSome {token : List Char} : (Text.readDecimal? token).isSome ↔
    token ≠ [] ∧ ∀ c ∈ token, (Text.decimalValue? c).isSome := by
  rcases token with _ | ⟨c, cs⟩
  · simp [Text.readDecimal?]
  · rw [Text.readDecimal?, foldl_decimalValue?_isSome]
    · simp
    · exact nofun

theorem all_isDigit_of_readDecimal? {token : List Char} {n : Nat}
    (h : Text.readDecimal? token = some n) : (!token.isEmpty && token.all Text.isDigit) = true := by
  obtain ⟨hne, hall⟩ := readDecimal?_isSome.mp (by rw [h]; rfl)
  rw [Bool.and_eq_true, List.all_eq_true]
  exact ⟨by simpa using hne, fun c hc => isDigit_of_decimalValue? (hall c hc)⟩

/-- What a token of digits spells, or that it spells nothing. -/
theorem index_cases {token : List Char} (hne : token ≠ []) (hd : token.all Text.isDigit) :
    (∃ n, Text.readDecimal? token = some n ∧ index token = .ok n) ∨
      (¬ Readable token ∧ index token = .error .badValue) := by
  unfold index
  split_ifs with hlong
  · exact .inr ⟨fun h => absurd (h hd).2 (Nat.not_le.mpr hlong), rfl⟩
  · rcases hr : Text.readDecimal? token with _ | n
    · refine .inr ⟨fun h => ?_, rfl⟩
      have := readDecimal?_isSome.mpr ⟨hne, (h hd).1⟩
      rw [hr] at this
      cases this
    · exact .inl ⟨n, rfl, rfl⟩

/-- Every token that is met at a list is read without a fault. -/
def Legible (v : Value) (ts : List (List Char)) : Prop :=
  ∀ pre token post items, ts = pre ++ token :: post → Leads (.list items) pre v → Readable token

/-- A step finds the value that its token leads to, or there is none, or it stands at a list and its
token is of digits that spell no index. -/
theorem step_cases (v : Value) (token : List Char) :
    (∃ w, step v token = .ok (some w) ∧ ∀ u rest, Leads u (token :: rest) v ↔ Leads u rest w) ∨
      (step v token = .ok none ∧ ∀ u rest, ¬ Leads u (token :: rest) v) ∨
      (step v token = .error .badValue ∧ (∃ items, v = .list items) ∧ ¬ Readable token) := by
  cases v with
  | atom a => exact .inr (.inl ⟨rfl, fun u rest h => nomatch h⟩)
  | map e =>
    rcases hk : Mapping.get? e (String.ofList token) with _ | w
    · refine .inr (.inl ⟨by rw [step, hk], fun u rest h => ?_⟩)
      cases h with
      | key hk' => rw [hk] at hk'; cases hk'
    · refine .inl ⟨w, by rw [step, hk], fun u rest => ⟨fun h => ?_, .key hk⟩⟩
      cases h with
      | key hk' h =>
        rw [hk] at hk'
        cases hk'
        exact h
  | list items =>
    by_cases hd : (!token.isEmpty && token.all Text.isDigit) = true
    · have hd' : token ≠ [] ∧ token.all Text.isDigit = true := by simpa using hd
      rcases index_cases hd'.1 hd'.2 with ⟨n, hn, hindex⟩ | ⟨hnot, hindex⟩
      · have hstep : step (.list items) token = .ok items[n]? := by
          rw [step, if_pos hd, hindex]
          rfl
        rw [hstep]
        rcases hi : items[n]? with _ | w
        · refine .inr (.inl ⟨rfl, fun u rest h => ?_⟩)
          cases h with
          | index hn' hi' =>
            rw [hn] at hn'
            cases hn'
            rw [hi] at hi'
            cases hi'
        · refine .inl ⟨w, rfl, fun u rest => ⟨fun h => ?_, .index hn hi⟩⟩
          cases h with
          | index hn' hi' h =>
            rw [hn] at hn'
            cases hn'
            rw [hi] at hi'
            cases hi'
            exact h
      · refine .inr (.inr ⟨?_, ⟨items, rfl⟩, hnot⟩)
        rw [step, if_pos hd, hindex]
        rfl
    · refine .inr (.inl ⟨by rw [step, if_neg hd], fun u rest h => ?_⟩)
      cases h with
      | index hn => exact hd (all_isDigit_of_readDecimal? hn)

/-- **What a walk finds is what its tokens lead to.** Only a token of digits that is met at a list
and spells no index stops it. -/
theorem walk_cases : ∀ (ts : List (List Char)) (v : Value),
    (∃ w, walk v ts = .ok (some w) ∧ ∀ u, Leads u ts v ↔ u = w) ∨
      (walk v ts = .ok none ∧ ∀ u, ¬ Leads u ts v) ∨
      (walk v ts = .error .badValue ∧ ¬ Legible v ts)
  | [], v => .inl ⟨v, rfl, fun u => ⟨fun h => by cases h; rfl, fun h => h ▸ .here⟩⟩
  | token :: ts, v => by
    rw [walk]
    rcases step_cases v token with ⟨w, hs, hl⟩ | ⟨hs, hl⟩ | ⟨hs, ⟨items, rfl⟩, hr⟩
    · rw [hs]
      simp only [hl]
      refine (walk_cases ts w).imp_right fun h => h.imp_right fun ⟨hw, hbad⟩ =>
        ⟨hw, fun hlegible => hbad fun pre t post items ht hlead => ?_⟩
      exact hlegible (token :: pre) t post items (congrArg (token :: ·) ht) ((hl _ _).mpr hlead)
    · rw [hs]
      exact .inr (.inl ⟨rfl, fun u => hl u ts⟩)
    · rw [hs]
      exact .inr (.inr ⟨rfl, fun hlegible => hr (hlegible [] token ts items rfl .here)⟩)

end SchemaForge.OpenApi.Pointer
