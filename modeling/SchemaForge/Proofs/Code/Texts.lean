import SchemaForge.Dialect.Builder
import SchemaForge.Proofs.Logged
import SchemaForge.Proofs.Schema.Texts

/-!
# Code with other texts

* `Code.mapTexts`: code with other texts of the document in its literals and comments.
* `mapTexts_join`, `mapTexts_apply`, `mapTexts_braces`, `object_mapTexts`: what is put together of
  parts with other texts.
-/

namespace SchemaForge

/-- Steps over a list commute with a map that each of them commutes with. -/
theorem mapM_map_of_forall {m : Type → Type} [Monad m] [LawfulMonad m] {α α' β β' : Type}
    {f : α → α'} {g : α' → m β'} {g' : α → m β} {k : β → β'} : ∀ {l : List α},
    (∀ a ∈ l, g (f a) = k <$> g' a) → (l.map f).mapM g = List.map k <$> l.mapM g'
  | [], _ => by simp
  | a :: l, h => by
    rw [List.forall_mem_cons] at h
    rw [List.map_cons, List.mapM_cons, List.mapM_cons, h.1, mapM_map_of_forall h.2]
    simp only [map_eq_pure_bind, bind_assoc, pure_bind, List.map_cons]

namespace Code

variable (r : Replacement)

/-- The part of a literal with another text. -/
def Stretch.mapTexts : Stretch → Stretch
  | .own words => .own words
  | .taken text => .taken (r.text text)
  | .key name => .key (r.key name)
  | .pattern text => .pattern (r.text text)
  | .missing name => .missing name

/-- The wording with other texts. -/
def Wording.mapTexts (w : Wording) : Wording := w.map (Stretch.mapTexts r)

/-- The piece with other texts. -/
def Piece.mapTexts : Piece → Piece
  | .plain words => .plain words
  | .reference name code => .reference name code
  | .quoted wording => .quoted (wording.mapTexts r)
  | .comment text indent => .comment (r.text text) indent

/-- The code with other texts. -/
def mapTexts (code : Code) : Code := code.map (Piece.mapTexts r)

/-! ## Code put together -/

@[simp] theorem mapTexts_nil : mapTexts r [] = [] := rfl

@[simp] theorem mapTexts_append (c d : Code) :
    mapTexts r (c ++ d) = mapTexts r c ++ mapTexts r d := List.map_append

@[simp] theorem mapTexts_plain (words : String) (c : Code) :
    mapTexts r (.plain words :: c) = .plain words :: mapTexts r c := rfl

theorem mapTexts_flatten (l : List Code) :
    mapTexts r l.flatten = (l.map (mapTexts r)).flatten := List.map_flatten

theorem mapTexts_join (between : String) : ∀ l : List Code,
    mapTexts r (join between l) = join between (l.map (mapTexts r))
  | [] => rfl
  | [_] => rfl
  | c :: d :: l => by
    rw [join, mapTexts_append, mapTexts_plain, mapTexts_join between (d :: l)]
    · rfl
    · simp

theorem mapTexts_apply (call : Call) (l : List Code) :
    mapTexts r (call.apply l) = call.apply (l.map (mapTexts r)) := by
  rw [Call.apply, mapTexts_append, mapTexts_plain, mapTexts_join]
  rfl

theorem mapTexts_each (words : List String) : (each words).map (mapTexts r) = each words := by
  rw [each, List.map_map]
  rfl

theorem isEmpty_mapTexts (c : Code) : (mapTexts r c).isEmpty = c.isEmpty := List.isEmpty_map

theorem mapTexts_braces (lines : List Code) (depth : Nat) :
    mapTexts r (braces lines depth) = braces (lines.map (mapTexts r)) depth := by
  unfold braces
  rw [List.isEmpty_map]
  split
  · rfl
  · rw [mapTexts_append, mapTexts_append, mapTexts_join]
    rfl

theorem commentedLine_mapTexts (doc line : Code) :
    commentedLine (mapTexts r doc) (mapTexts r line) =
      (commentedLine doc line).map (mapTexts r) := by
  unfold commentedLine
  rw [isEmpty_mapTexts]
  split <;> rfl

/-! ## Values, keys and comments -/

theorem value_mapTexts (v : Value) : value (r.value v) = mapTexts r (value v) := by
  rcases r.value_cases v with ⟨s, rfl, h⟩ | ⟨hne, h⟩
  · rfl
  · rw [h]
    unfold value
    split
    · exact absurd rfl (hne _)
    · rfl

theorem key_mapTexts (name : String) : key (r.key name) = mapTexts r (key name) := by
  unfold key Replacement.key
  by_cases h : Name.isIdentifier name
  · rw [if_pos h, if_pos h]
    rfl
  · rw [if_neg h, (r.alike name).identifier, if_neg h, if_neg h]
    simp [mapTexts, Piece.mapTexts, Wording.mapTexts, Stretch.mapTexts, Replacement.key, h]

/-- Only a text makes a comment. -/
theorem commented?_eq_some {d : Value} {text : String} (h : commented? d = .ok (some text)) :
    d = .str text := by
  unfold commented? at h
  split at h
  · split at h <;> cases h
    rfl
  · split at h <;> cases h
  · split at h <;> cases h

theorem comment_mapTexts (d : Value) (indent : String) :
    comment (r.value d) indent = mapTexts r <$> comment d indent := by
  rcases r.value_cases d with ⟨s, rfl, h⟩ | ⟨hne, h⟩
  · rw [h]
    unfold comment commented?
    simp only [(r.alike s).blank]
    cases Code.isBlank s <;> rfl
  · rw [h]
    unfold comment
    rcases hc : commented? d with fault | (- | text)
    · rfl
    · rfl
    · exact absurd (commented?_eq_some hc) (hne text)

/-- The field with other texts. -/
def Field.mapTexts (f : Field) : Field :=
  { key := Code.mapTexts r f.key, value := Code.mapTexts r f.value,
    description := r.value f.description }

theorem fieldLines_mapTexts (inner : String) (f : Field) :
    (f.mapTexts r).lines inner = List.map (mapTexts r) <$> f.lines inner := by
  unfold Field.lines
  rw [show (f.mapTexts r).description = r.value f.description from rfl, comment_mapTexts]
  simp only [map_eq_pure_bind, bind_assoc, pure_bind]
  refine bind_congr fun doc => congrArg pure ?_
  rw [← commentedLine_mapTexts]
  simp only [mapTexts_append, mapTexts_plain, mapTexts_nil]
  rfl

theorem object_mapTexts (fields : List Field) (depth : Nat) :
    object (fields.map (Field.mapTexts r)) depth = mapTexts r <$> object fields depth := by
  unfold object
  rw [mapM_map_of_forall fun f _ => fieldLines_mapTexts r _ f]
  simp only [map_eq_pure_bind, bind_assoc, pure_bind]
  refine bind_congr fun lines => congrArg pure ?_
  rw [mapTexts_braces, List.map_flatten]

end Code

end SchemaForge
