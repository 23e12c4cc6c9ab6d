import Mathlib.Algebra.Order.Field.Rat
import SchemaForge.Value.Basic

/-!
# The values that schemas are about

* `Datum`: a JSON value, with exact numbers.
* `Value.rational?`: the number that a document value stands for.
* `Denotes`: a document value stands for a datum; numbers by value, mappings without regard to the
  order of their keys.
-/

namespace SchemaForge

/-- A JSON value. -/
inductive Datum where
  | null
  | bool (b : Bool)
  | number (q : ℚ)
  | text (s : String)
  | list (items : List Datum)
  | object (members : List (String × Datum))
  deriving Inhabited

/-- The number that a double stands for, if it is finite. -/
def Double.rational? : Double → Option ℚ
  | .finite negative mantissa exponent =>
    some ((if negative then -1 else 1) * mantissa * 2 ^ exponent)
  | .infinite _ | .nan => none

/-- The number that a document value stands for. -/
def Value.rational? : Value → Option ℚ
  | .atom (.int n) => some n
  | .atom (.float d) => d.rational?
  | _ => none

/-- A document value stands for a datum. -/
inductive Denotes : Value → Datum → Prop
  | null : Denotes .null .null
  | bool (b : Bool) : Denotes (.bool b) (.bool b)
  | number {v : Value} {q : ℚ} : v.rational? = some q → Denotes v (.number q)
  | text (s : String) : Denotes (.str s) (.text s)
  | list {vs : List Value} {ds : List Datum} : vs.length = ds.length →
    (∀ (i : Nat) v d, vs[i]? = some v → ds[i]? = some d → Denotes v d) →
      Denotes (.list vs) (.list ds)
  | object {entries : Mapping} {members : List (String × Datum)} :
    (∀ key, (entries.get? key).isSome = (members.lookup key).isSome) →
    (∀ key v d, entries.get? key = some v → members.lookup key = some d → Denotes v d) →
    Denotes (.map entries) (.object members)

theorem Value.isNull_iff {v : Value} : v.isNull = true ↔ v = .null := by
  constructor
  · intro h
    unfold Value.isNull at h
    split at h
    · rfl
    · cases h
  · rintro rfl
    rfl

theorem denotes_null {d : Datum} : Denotes .null d ↔ d = .null := by
  constructor
  · intro h
    cases h with
    | null => rfl
    | number h => simp [Value.rational?] at h
  · rintro rfl
    exact .null

end SchemaForge
