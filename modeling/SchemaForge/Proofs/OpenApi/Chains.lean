import SchemaForge.Proofs.OpenApi.Pointers

/-!
# Chains of references

A reference leads to a value, which may be a reference again.

* `Hop`, `Spells`: one reference of a chain; `Chain`: so many of them.
* `Ends`: how following a chain ends; **`resolveWithin_ends`**: every chain ends.
* **`resolve_spell`**: what is spelled is found, through any chain that is not too long.
-/

namespace SchemaForge.OpenApi.Pointer

/-- A node refers to a value: the keys of its reference lead there from the root. -/
def Hop (document u v : Value) : Prop :=
  ∃ ref text, refOf? u = some (.str ref) ∧ local? ref = some text ∧ Leads v (keysOf text) document

/-- A node refers to a value by the reference that spells its address. -/
def Spells (document u v : Value) : Prop :=
  ∃ path, path ≠ [] ∧ (∀ n, .index n ∈ path → n < 10 ^ maxIndexDigits) ∧
    refOf? u = some (.str (spell path)) ∧ Addresses v path document

/-- So many hops lead from one node to another. -/
inductive Chain (hop : Value → Value → Prop) : Nat → Value → Value → Prop
  | done (v : Value) : Chain hop 0 v v
  | next {n : Nat} {u v w : Value} : hop u v → Chain hop n v w → Chain hop (n + 1) u w

variable {document u v w : Value} {hops n : Nat}

theorem resolveWithin_value (h : refOf? v = none) : resolveWithin document hops v = .ok v := by
  rw [resolveWithin, h]

theorem resolveWithin_succ {ref : String} {text : List Char} (hr : refOf? u = some (.str ref))
    (hl : local? ref = some text) : resolveWithin document (hops + 1) u =
      match walk document (keysOf text) with
      | .error f => .error (.fault f)
      | .ok none => .error (.unresolved (.missing ref))
      | .ok (some v) => resolveWithin document hops v := by
  rw [resolveWithin, hr]
  simp only [hl, follow, tokens_eq_keysOf]
  rcases walk document (keysOf text) with f | _ | v <;> rfl

/-- A path is walked down by its tokens. -/
theorem walk_of_addresses {path : List Step} (h : Addresses v path u)
    (hn : ∀ n, .index n ∈ path → n < 10 ^ maxIndexDigits) :
    walk u (path.map Step.token) = .ok (some v) := by
  induction h with
  | here => rfl
  | key hk _ ih =>
    rw [List.map_cons, walk, step, Step.token, String.ofList_toList, hk]
    exact ih fun n h => hn n (List.mem_cons_of_mem _ h)
  | @index k path items w hk _ ih =>
    have hread := readDecimal?_index k
    rw [List.map_cons, walk, step, Step.token, if_pos (all_isDigit_of_readDecimal? hread),
      index_index (hn k List.mem_cons_self), Except.map, hk]
    exact ih fun n h => hn n (List.mem_cons_of_mem _ h)

theorem resolveWithin_of_spells (h : Spells document u v) :
    resolveWithin document (hops + 1) u = resolveWithin document hops v := by
  obtain ⟨path, hne, hn, hr, ha⟩ := h
  obtain ⟨text, hl, ht⟩ := tokens_spell hne
  rw [resolveWithin_succ hr hl, ← tokens_eq_keysOf, ht, walk_of_addresses ha hn]

/-- A chain of spelled references is followed to its end. -/
theorem resolveWithin_of_chain (h : Chain (Spells document) n u v) (hv : refOf? v = none)
    (hn : n ≤ hops) : resolveWithin document hops u = .ok v := by
  induction h generalizing hops with
  | done v => exact resolveWithin_value hv
  | next hop _ ih =>
    obtain ⟨hops, rfl⟩ := Nat.exists_eq_add_of_lt hn
    rw [resolveWithin_of_spells hop]
    exact ih hv (Nat.le_add_right _ _)

/-- How following a chain of references ends: with a value; at a reference that leads nowhere, or
where the chain is too long; or at a list, with a token of digits that spell no index. -/
inductive Ends (document u : Value) (hops : Nat) : Except Stop Value → Prop
  | value {n : Nat} {v : Value} : n ≤ hops → Chain (Hop document) n u v → refOf? v = none →
    Ends document u hops (.ok v)
  | unresolved {n : Nat} {v : Value} {err : ReferenceError} : n ≤ hops →
    Chain (Hop document) n u v → refOf? v ≠ none → (n = hops ∨ ∀ w, ¬ Hop document v w) →
    Ends document u hops (.error (.unresolved err))
  | illegible {n : Nat} {v : Value} {ref : String} {text : List Char} : n < hops →
    Chain (Hop document) n u v → refOf? v = some (.str ref) → local? ref = some text →
    ¬ Legible document (keysOf text) → Ends document u hops (.error (.fault .badValue))

theorem Ends.next {out : Except Stop Value} (hop : Hop document u v)
    (h : Ends document v hops out) : Ends document u (hops + 1) out := by
  cases h with
  | value hn hc hv => exact .value (Nat.succ_le_succ hn) (.next hop hc) hv
  | unresolved hn hc hv hw =>
    exact .unresolved (Nat.succ_le_succ hn) (.next hop hc) hv (hw.imp_left (congrArg (· + 1)))
  | illegible hn hc hr hl hbad =>
    exact .illegible (Nat.succ_lt_succ hn) (.next hop hc) hr hl hbad

/-- A reference that is not into the document leads nowhere, and is not resolved. -/
theorem resolveWithin_foreign (document : Value) (hops : Nat) {ref : Value}
    (hr : refOf? u = some ref) (h : ∀ s text, ref = .str s → local? s ≠ some text) :
    (∀ v, ¬ Hop document u v) ∧
      resolveWithin document (hops + 1) u = .error (.unresolved (.unsupported ref)) := by
  constructor
  · rintro v ⟨s, text, hs, hl, -⟩
    rw [hr] at hs
    exact h s text (Option.some.inj hs) hl
  · rw [resolveWithin, hr]
    split
    · cases ‹some ref = none›
    · rename_i s hs
      cases hs
      split
      · rfl
      · rename_i text hl
        exact absurd hl (h s text rfl)
    · rename_i hs
      cases hs
      rfl

/-- A reference is not resolved without a hop. -/
theorem resolveWithin_zero (document : Value) {ref : Value} (hr : refOf? u = some ref) :
    ∃ err, resolveWithin document 0 u = .error (.unresolved err) := by
  rw [resolveWithin, hr]
  split
  · cases ‹some ref = none›
  · split <;> exact ⟨_, rfl⟩
  · exact ⟨_, rfl⟩

/-- **Every chain of references ends.** -/
theorem resolveWithin_ends (document : Value) : ∀ (hops : Nat) (u : Value),
    Ends document u hops (resolveWithin document hops u) := by
  intro hops
  induction hops with
  | zero =>
    intro u
    rcases hr : refOf? u with _ | ref
    · rw [resolveWithin_value hr]
      exact .value (Nat.le_refl 0) (.done u) hr
    · have hne : refOf? u ≠ none := by rw [hr]; exact nofun
      obtain ⟨err, herr⟩ := resolveWithin_zero document hr
      rw [herr]
      exact .unresolved (Nat.le_refl 0) (.done u) hne (.inl rfl)
  | succ hops ih =>
    intro u
    rcases hr : refOf? u with _ | ref
    · rw [resolveWithin_value hr]
      exact .value (Nat.zero_le _) (.done u) hr
    · have hne : refOf? u ≠ none := by rw [hr]; exact nofun
      by_cases hinto : ∃ s text, ref = .str s ∧ local? s = some text
      · obtain ⟨s, text, rfl, hl⟩ := hinto
        rw [resolveWithin_succ hr hl]
        rcases walk_cases (keysOf text) document with ⟨w, hw, hleads⟩ | ⟨hw, hleads⟩ | ⟨hw, hbad⟩
        · rw [hw]
          exact (ih w).next ⟨s, text, hr, hl, (hleads w).mpr rfl⟩
        · rw [hw]
          refine .unresolved (Nat.zero_le _) (.done u) hne (.inr ?_)
          rintro w ⟨s', text', hr', hl', hleads'⟩
          rw [hr] at hr'
          cases hr'
          rw [hl] at hl'
          cases hl'
          exact hleads w hleads'
        · rw [hw]
          exact .illegible (Nat.succ_pos _) (.done u) hr hl hbad
      · have hforeign : ∀ s text, ref = .str s → local? s ≠ some text := fun s text hs hl =>
          hinto ⟨s, text, hs, hl⟩
        obtain ⟨hnone, herr⟩ := resolveWithin_foreign document hops hr hforeign
        rw [herr]
        exact .unresolved (Nat.zero_le _) (.done u) hne (.inr hnone)

/-- The node that consists in a reference. -/
def refNode (ref : String) : Value := .map [(.str "$ref", .str ref)]

theorem refOf?_refNode (ref : String) : refOf? (refNode ref) = some (.str ref) := by
  rw [refNode, refOf?, Mapping.get?_cons, if_pos rfl]

/-- **Main statement.** The reference that spells the address of a value resolves to this value, and
so does a chain of at most 32 such references. Every chain ends within 32 hops with a value or with
a reference that is not resolved, unless a token of digits that is met at a list spells no index. -/
theorem resolve_spell (document : Value) :
    (∀ path v, path ≠ [] → (∀ n, .index n ∈ path → n < 10 ^ maxIndexDigits) →
      Addresses v path document → refOf? v = none →
      resolve document (refNode (spell path)) = .ok v) ∧
    (∀ n u v, n ≤ maxHops → Chain (Spells document) n u v → refOf? v = none →
      resolve document u = .ok v) ∧
    ∀ u, Ends document u maxHops (resolve document u) := by
  have hchain : ∀ n u v, n ≤ maxHops → Chain (Spells document) n u v → refOf? v = none →
      resolve document u = .ok v := fun n u v hn hc hv => resolveWithin_of_chain hc hv hn
  refine ⟨fun path v hne hn ha hv => ?_, hchain, resolveWithin_ends document maxHops⟩
  have hspells : Spells document (refNode (spell path)) v := ⟨path, hne, hn, refOf?_refNode _, ha⟩
  exact hchain 1 _ v (by decide) (.next hspells (.done v)) hv

/-! ### Awkward keys, and an index that is too long -/

/-- The address of a value below keys that look like escapes, like nothing and like an index. -/
def awkwardPath : List Step := [.key "a/b", .key "~01", .index 1, .key "", .key "12"]

/-- A document with a value at the awkward address, and a reference to it. -/
def awkwardDocument : Value :=
  .map [
    (.str "a/b", .map [
      (.str "~01", .list [.null, .map [(.str "", .map [(.str "12", .str "here")])]])]),
    (.str "next", refNode (spell awkwardPath))]

/-- The value at the awkward address is found, directly and through another reference. -/
theorem resolve_awkward : spell awkwardPath = "#/a~1b/~001/1//12" ∧
    resolve awkwardDocument (refNode "#/a~1b/~001/1//12") = .ok (.str "here") ∧
    resolve awkwardDocument (refNode "#/next") = .ok (.str "here") := by
  have hspell : spell awkwardPath = "#/a~1b/~001/1//12" := by decide
  have haddress : Addresses (.str "here") awkwardPath awkwardDocument :=
    .key rfl (.key rfl (.index rfl (.key rfl (.key rfl .here))))
  have hindex : ∀ n, .index n ∈ awkwardPath → n < 10 ^ maxIndexDigits := by
    intro n hn
    obtain rfl : n = 1 := by simpa [awkwardPath] using hn
    exact Nat.one_lt_pow (by decide) (by decide)
  have hlast : Spells awkwardDocument (refNode (spell awkwardPath)) (.str "here") :=
    ⟨awkwardPath, by decide, hindex, refOf?_refNode _, haddress⟩
  have hfirst : Spells awkwardDocument (refNode "#/next") (refNode (spell awkwardPath)) :=
    ⟨[.key "next"], by decide, by simp, refOf?_refNode _, .key rfl .here⟩
  obtain ⟨hdirect, hchain, -⟩ := resolve_spell awkwardDocument
  refine ⟨hspell, ?_, ?_⟩
  · rw [← hspell]
    exact hdirect awkwardPath _ (by decide) hindex haddress rfl
  · exact hchain 2 _ _ (by decide) (.next hfirst (.next hlast (.done _))) rfl

/-- **An index may be too long to be read.** All its digits are decimal, and yet following it ends
neither with a value nor with a reference that is not resolved. -/
theorem resolve_long_index : ∃ ref text, local? ref = some text ∧
    (∀ token ∈ keysOf text, ∀ c ∈ token, Text.isDigit c → (Text.decimalValue? c).isSome) ∧
    resolve (.map [(.str "x", .list [])]) (refNode ref) = .error (.fault .badValue) := by
  obtain ⟨ones, hones⟩ : ∃ ones, ones = List.replicate (maxIndexDigits + 1) '1' := ⟨_, rfl⟩
  have hpath : [Step.key "x", .key (String.ofList ones)] ≠ [] := by simp
  obtain ⟨text, hl, ht⟩ := tokens_spell hpath
  have hkeys : keysOf text = [['x'], ones] := by
    rw [← tokens_eq_keysOf, ht, List.map_cons, List.map_singleton]
    exact congrArg (['x'] :: [·]) String.toList_ofList
  have hdecimal : ∀ c ∈ ones, (Text.decimalValue? c).isSome := fun c hc => by
    rw [hones] at hc
    rw [List.eq_of_mem_replicate hc]
    rfl
  have hdigits : (!ones.isEmpty && ones.all Text.isDigit) = true := by
    rw [Bool.and_eq_true, List.all_eq_true]
    exact ⟨by simp [hones], fun c hc => isDigit_of_decimalValue? (hdecimal c hc)⟩
  have hlong : maxIndexDigits < ones.length := by
    rw [hones, List.length_replicate]
    exact Nat.lt_succ_self _
  have hkey : step (.map [(.str "x", .list [])]) ['x'] = .ok (some (.list [])) := rfl
  have hindex : step (.list []) ones = .error .badValue := by
    rw [step, if_pos hdigits, index, if_pos hlong]
    rfl
  refine ⟨_, text, hl, ?_, ?_⟩
  · intro token htoken c hc hd
    rw [hkeys] at htoken
    rcases List.mem_cons.mp htoken with rfl | htoken
    · rw [List.mem_singleton.mp hc] at hd
      exact absurd hd (by decide)
    · rw [List.mem_singleton.mp htoken] at hc
      exact hdecimal c hc
  · rw [resolve, maxHops, resolveWithin_succ (refOf?_refNode _) hl, hkeys, walk, hkey]
    dsimp only
    rw [walk, hindex]

end SchemaForge.OpenApi.Pointer
