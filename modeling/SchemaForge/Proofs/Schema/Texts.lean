import SchemaForge.Code.Text
import SchemaForge.Name
import SchemaForge.Proofs.Schema.Induction
import SchemaForge.Schema.Entry

/-!
# Schemas with other texts

The texts of a document in a schema are its descriptions, patterns, listed texts and keys.

* `Alike`: two texts that no renderer tells apart.
* `Replacement`: a text for every text, alike.
* `Schema.mapTexts`, `Entry.mapTexts`: a schema and an entry with other texts of the document.
-/

namespace SchemaForge

/-- Texts that no renderer tells apart: both are empty or blank or identifiers, or neither is, and
they have the same of the four characters that matter to a type language. -/
structure Alike (s t : String) : Prop where
  empty : t = "" ↔ s = ""
  blank : Code.isBlank t = Code.isBlank s
  identifier : Name.isIdentifier t = Name.isIdentifier s
  has : ∀ c ∈ [' ', '|', '\'', '\\'], t.toList.contains c = s.toList.contains c

/-- A text for every text, alike. -/
structure Replacement where
  text : String → String
  alike : ∀ s, Alike s (text s)

namespace Replacement

variable (r : Replacement)

/-- The name of a property: one that is quoted is replaced, and an identifier stays. -/
def key (name : String) : String := if Name.isIdentifier name then name else r.text name

/-- A value, replaced if it is a text. -/
def value : Value → Value
  | .atom (.str s) => .str (r.text s)
  | v => v

/-- The key of a property. -/
def atom : Atom → Atom
  | .str s => .str (r.key s)
  | a => a

theorem value_cases (v : Value) : (∃ s, v = .str s ∧ r.value v = .str (r.text s)) ∨
    (∀ s, v ≠ .str s) ∧ r.value v = v := by
  by_cases h : ∃ s, v = .str s
  · obtain ⟨s, rfl⟩ := h
    exact .inl ⟨s, rfl, rfl⟩
  · refine .inr ⟨fun s hs => h ⟨s, hs⟩, ?_⟩
    unfold value
    split
    · exact absurd ⟨_, rfl⟩ h
    · rfl

theorem isGiven_value (v : Value) : (r.value v).isGiven = v.isGiven := by
  rcases r.value_cases v with ⟨s, rfl, h⟩ | ⟨-, h⟩
  · rw [h, Bool.eq_iff_iff]
    simp only [Value.isGiven, bne_iff_ne]
    exact not_congr (r.alike s).empty
  · rw [h]

end Replacement

namespace Schema

mutual

/-- The schema with other texts of the document. -/
def mapTexts (r : Replacement) : Schema → Schema
  | .primitive kind d => .primitive kind (r.value d)
  | .string format least most pattern d =>
    .string format least most (r.value pattern) (r.value d)
  | .number integer least most d => .number integer least most (r.value d)
  | .object properties extra d =>
    .object (mapTextsOfProperties r properties) (mapTextsOfExtra r extra) (r.value d)
  | .array items d => .array (items.mapTexts r) (r.value d)
  | .tuple items d => .tuple (mapTextsOfAll r items) (r.value d)
  | .record key value d => .record (key.mapTexts r) (value.mapTexts r) (r.value d)
  | .enum values d => .enum (values.map r.value) (r.value d)
  | .literal value d => .literal (r.value value) (r.value d)
  | .union members d => .union (mapTextsOfAll r members) (r.value d)
  | .intersection members d => .intersection (mapTextsOfAll r members) (r.value d)
  | .ref name d => .ref name (r.value d)
  | .raw code d => .raw code (r.value d)
  | .foreign node => .foreign { node with description := r.value node.description }

/-- A list of schemas with other texts. -/
def mapTextsOfAll (r : Replacement) : List Schema → List Schema
  | [] => []
  | s :: rest => s.mapTexts r :: mapTextsOfAll r rest

/-- Properties with other texts. -/
def mapTextsOfProperties (r : Replacement) :
    List (Atom × Property Schema) → List (Atom × Property Schema)
  | [] => []
  | (key, p) :: rest =>
    (r.atom key, { p with schema := p.schema.mapTexts r, description := r.value p.description })
      :: mapTextsOfProperties r rest

/-- What an object says of further keys, with other texts. -/
def mapTextsOfExtra (r : Replacement) : Extra Schema → Extra Schema
  | .typed s => .typed (s.mapTexts r)
  | .unset => .unset
  | .allowed => .allowed
  | .rejected => .rejected

end

end Schema

/-- The property with other texts. -/
def Property.mapTexts (r : Replacement) (p : Property Schema) : Property Schema :=
  { p with schema := p.schema.mapTexts r, description := r.value p.description }

/-- The entry with other texts. -/
def Entry.mapTexts (r : Replacement) (e : Entry) : Entry := { e with schema := e.schema.mapTexts r }

namespace Schema

variable (r : Replacement)

theorem mapTextsOfAll_eq : ∀ l : List Schema, mapTextsOfAll r l = l.map (mapTexts r)
  | [] => rfl
  | s :: l => by rw [mapTextsOfAll, mapTextsOfAll_eq l, List.map_cons]

theorem mapTextsOfProperties_eq : ∀ l : List (Atom × Property Schema),
    mapTextsOfProperties r l = l.map (Prod.map r.atom (Property.mapTexts r))
  | [] => rfl
  | (_, _) :: l => by
    rw [mapTextsOfProperties, mapTextsOfProperties_eq l, List.map_cons]
    rfl

theorem description_mapTexts (s : Schema) : (s.mapTexts r).description = r.value s.description := by
  cases s <;> rfl

theorem kind?_mapTexts (s : Schema) : (s.mapTexts r).kind? = s.kind? := by
  cases s <;> rfl

end Schema

end SchemaForge
