import SchemaForge.Dialect.Builder
import SchemaForge.Proofs.Logged

/-!
# References in generated code

* `Code.references`: the names that code refers to, each with what is written for its constant.
* `Call.references_apply`, `references_object`: what is put together refers to what its parts refer
  to, in their order.
* `Code.Closed`: code that refers to nothing, such as keys, values and comments.
-/

namespace SchemaForge.Code

/-- The name that a part of a literal stands for, if it is one that cannot be named. -/
def Stretch.missing? : Stretch → Option String
  | .missing name => some name
  | _ => none

/-- The names that the parts of a literal stand for. -/
def Wording.missing (w : Wording) : List String := w.filterMap Stretch.missing?

/-- The names that a part of code refers to, each with what is written for its constant. -/
def Piece.references : Piece → List (String × String)
  | .reference name code => [(name, code)]
  | .quoted wording => wording.missing.map (·, missingWord)
  | .plain _ | .comment .. => []

/-- The names that code refers to, each with what is written for its constant. -/
def references (code : Code) : List (String × String) := code.flatMap Piece.references

/-- Code that refers to nothing. -/
def Closed (code : Code) : Prop := code.references = []

/-! ## Code put together -/

@[simp] theorem references_nil : references [] = [] := rfl

@[simp] theorem references_append (c₁ c₂ : Code) :
    references (c₁ ++ c₂) = references c₁ ++ references c₂ := List.flatMap_append

@[simp] theorem references_plain (words : String) (c : Code) :
    references (.plain words :: c) = references c := rfl

theorem references_flatten : ∀ l : List Code, references l.flatten = l.flatMap references
  | [] => rfl
  | code :: rest => by
    rw [List.flatten_cons, references_append, references_flatten rest, List.flatMap_cons]

theorem join_cons_cons (between : String) (code next : Code) (rest : List Code) :
    join between (code :: next :: rest) = code ++ .plain between :: join between (next :: rest) :=
  rfl

@[simp] theorem references_join (between : String) : ∀ l : List Code,
    references (join between l) = l.flatMap references
  | [] => rfl
  | [code] => by rw [join, List.flatMap_cons, List.flatMap_nil, List.append_nil]
  | code :: next :: rest => by
    rw [join_cons_cons, references_append, references_plain,
      references_join between (next :: rest), @List.flatMap_cons _ _ code]

@[simp] theorem Call.references_apply (call : Call) (l : List Code) :
    references (call.apply l) = l.flatMap references := by
  rw [Call.apply, references_append, references_plain, references_join]
  exact List.append_nil _

theorem references_braces (lines : List Code) (depth : Nat) :
    references (braces lines depth) = lines.flatMap references := by
  rw [braces]
  split
  · rename_i h
    rw [List.isEmpty_iff.mp h]
    rfl
  · simp only [references_append, references_join]
    exact List.append_nil _

theorem references_commentedLine {doc : Code} (h : doc.Closed) (line : Code) :
    (commentedLine doc line).flatMap references = references line := by
  unfold commentedLine
  split
  · exact List.append_nil _
  · rw [List.flatMap_cons, h, List.nil_append, List.flatMap_cons]
    exact List.append_nil _

/-! ## Code that refers to nothing -/

theorem flatMap_references_of_closed {l : List Code} (h : ∀ c ∈ l, Closed c) :
    l.flatMap references = [] :=
  List.flatMap_eq_nil_iff.mpr h

theorem closed_value (v : Value) : Closed (value v) := by
  unfold value
  split <;> rfl

theorem closed_key (name : String) : Closed (key name) := by
  unfold key
  split <;> rfl

theorem closed_comment {description : Value} {indent : String} {c : Code}
    (h : comment description indent = .ok c) : Closed c := by
  obtain ⟨text, -, h⟩ := except_bind_eq_ok.mp h
  cases text <;> cases h <;> rfl

theorem closed_each (words : List String) : ∀ c ∈ each words, Closed c :=
  List.forall_mem_map.mpr fun _ _ => rfl

/-! ## Object literals -/

theorem references_fieldLines {inner : String} {f : Field} {lines : List Code}
    (hk : f.key.Closed) (h : f.lines inner = .ok lines) :
    lines.flatMap references = f.value.references := by
  obtain ⟨doc, hdoc, h⟩ := except_bind_eq_ok.mp h
  obtain rfl := Except.ok.inj h
  rw [references_commentedLine (closed_comment hdoc)]
  simp only [references_append, references_plain, references_nil, List.nil_append,
    List.append_nil]
  rw [show f.key.references = [] from hk, List.nil_append]

/-- **An object literal refers to what the values of its fields refer to.** -/
theorem references_object {fields : List Field} {depth : Nat} {c : Code}
    (hk : ∀ f ∈ fields, f.key.Closed) (h : object fields depth = .ok c) :
    c.references = fields.flatMap (·.value.references) := by
  obtain ⟨lines, hlines, hc⟩ := except_bind_eq_ok.mp h
  obtain rfl := Except.ok.inj hc
  rw [references_braces]
  rw [except_mapM_eq_ok] at hlines
  clear h hc
  induction hlines with
  | nil => rfl
  | cons hf _ ih =>
    rw [List.flatten_cons, List.flatMap_append, List.flatMap_cons,
      references_fieldLines (hk _ List.mem_cons_self) hf,
      ih fun f hm => hk f (List.mem_cons_of_mem _ hm)]

end SchemaForge.Code
