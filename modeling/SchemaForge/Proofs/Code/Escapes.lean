import Mathlib.Data.List.Basic
import Mathlib.Tactic.SplitIfs
import SchemaForge.Code.Text

/-!
# String literals of texts

A text is written between quotes by five replacements, one after another over the whole of it. What
is written is read by the escapes of the generated language.

* `Quoted.replaceAll`: a text after replacements; **`encode_eq_replaceAll`**: the five of them write
  a text character by character.
* `Quoted.unescaped?`: the characters behind no backslash.
* `Quoted.decode?`, `unquote?`: the text that is written between quotes, and that of a literal.
* **`quote_faithful`**: a literal is closed by its last character only, and stands for its text.
* `readQuoted`: the text of a literal and what stands behind it, where more code follows;
  **`readQuoted_encode`**: a quoted text is read back there too.
-/

namespace SchemaForge.Code

namespace Quoted

/-! ## Replacements -/

/-- A text with other characters in place of each occurrence of one. -/
def replace (c : Char) (written cs : List Char) : List Char :=
  cs.flatMap fun d => if d = c then written else [d]

/-- A text after replacements, each of them over the whole of it. -/
def replaceAll (rs : List (Char × List Char)) (cs : List Char) : List Char :=
  rs.foldl (fun cs r => replace r.1 r.2 cs) cs

/-- The replacements that write a text, in their order. -/
def replacements : List (Char × List Char) :=
  [('\\', ['\\', '\\']), ('"', ['\\', '"']), ('\n', ['\\', 'n']), ('\r', ['\\', 'r']),
    ('\t', ['\\', 't'])]

variable {rs : List (Char × List Char)} {c : Char} {cs : List Char}

theorem replaceAll_append (rs : List (Char × List Char)) (cs ds : List Char) :
    replaceAll rs (cs ++ ds) = replaceAll rs cs ++ replaceAll rs ds := by
  induction rs generalizing cs ds with
  | nil => rfl
  | cons r rs ih =>
    have hr : replace r.1 r.2 (cs ++ ds) = replace r.1 r.2 cs ++ replace r.1 r.2 ds :=
      List.flatMap_append
    simp only [replaceAll, List.foldl_cons, hr] at ih ⊢
    exact ih _ _

theorem replaceAll_of_ne (h : ∀ r ∈ rs, c ≠ r.1) : replaceAll rs [c] = [c] := by
  induction rs with
  | nil => rfl
  | cons r rs ih =>
    rw [List.forall_mem_cons] at h
    have hr : replace r.1 r.2 [c] = [c] := by simp [replace, h.1]
    rw [replaceAll, List.foldl_cons, hr]
    exact ih h.2

/-- **No replacement touches what an earlier one wrote.** The backslash is replaced first, so all
backslashes of the others stay. -/
theorem replaceAll_singleton (c : Char) : replaceAll replacements [c] = encodeChar c := by
  unfold encodeChar
  split_ifs with hb hq hn hr ht
  · rw [beq_iff_eq.mp hb]
    rfl
  · rw [beq_iff_eq.mp hq]
    rfl
  · rw [beq_iff_eq.mp hn]
    rfl
  · rw [beq_iff_eq.mp hr]
    rfl
  · rw [beq_iff_eq.mp ht]
    rfl
  · simp only [beq_iff_eq] at hb hq hn hr ht
    exact replaceAll_of_ne (by simp [replacements, hb, hq, hn, hr, ht])

/-- **The replacements write a text character by character.** -/
theorem encode_eq_replaceAll (cs : List Char) : encode cs = replaceAll replacements cs := by
  induction cs with
  | nil => rfl
  | cons c cs ih =>
    rw [← List.singleton_append, replaceAll_append, replaceAll_singleton, ← ih]
    rfl

/-! ## Reading -/

/-- The characters that stand behind no backslash, if every backslash has a character behind it. -/
def unescaped? : List Char → Option (List Char)
  | [] => some []
  | ['\\'] => none
  | '\\' :: _ :: cs => unescaped? cs
  | c :: cs => (unescaped? cs).map (c :: ·)

/-- The character that is meant by one behind a backslash. -/
def escaped? : Char → Option Char
  | '\\' => some '\\'
  | '"' => some '"'
  | 'n' => some '\n'
  | 'r' => some '\r'
  | 't' => some '\t'
  | _ => none

/-- The text that is written between quotes. A quote or a line end behind no backslash, a backslash
with nothing behind it and one with any other character behind it are refused. -/
def decode? : List Char → Option (List Char)
  | [] => some []
  | ['\\'] => none
  | '\\' :: d :: cs => do return (← escaped? d) :: (← decode? cs)
  | c :: cs => if c = '"' ∨ c = '\n' ∨ c = '\r' then none else (decode? cs).map (c :: ·)

/-- A character is written as an escape that means it, or as itself. -/
theorem encodeChar_spec (c : Char) :
    (∃ d, encodeChar c = ['\\', d] ∧ escaped? d = some c ∧ d ≠ '\n' ∧ d ≠ '\r') ∨
      (encodeChar c = [c] ∧ c ≠ '\\' ∧ c ≠ '"' ∧ c ≠ '\n' ∧ c ≠ '\r') := by
  unfold encodeChar
  split_ifs with hb hq hn hr ht
  · exact .inl ⟨_, rfl, by rw [beq_iff_eq.mp hb]; rfl, by decide, by decide⟩
  · exact .inl ⟨_, rfl, by rw [beq_iff_eq.mp hq]; rfl, by decide, by decide⟩
  · exact .inl ⟨_, rfl, by rw [beq_iff_eq.mp hn]; rfl, by decide, by decide⟩
  · exact .inl ⟨_, rfl, by rw [beq_iff_eq.mp hr]; rfl, by decide, by decide⟩
  · exact .inl ⟨_, rfl, by rw [beq_iff_eq.mp ht]; rfl, by decide, by decide⟩
  · simp only [beq_iff_eq] at hb hq hn hr
    exact .inr ⟨rfl, hb, hq, hn, hr⟩

theorem encode_cons (c : Char) (cs : List Char) : encode (c :: cs) = encodeChar c ++ encode cs :=
  List.flatMap_cons

theorem unescaped?_cons (h : c ≠ '\\') : unescaped? (c :: cs) = (unescaped? cs).map (c :: ·) := by
  rw [unescaped?]
  · exact fun h' => absurd h' h
  · exact fun _ _ h' => absurd h' h

theorem decode?_cons (h : c ≠ '\\') (hc : ¬ (c = '"' ∨ c = '\n' ∨ c = '\r')) :
    decode? (c :: cs) = (decode? cs).map (c :: ·) := by
  rw [decode?, if_neg hc]
  · exact fun h' => absurd h' h
  · exact fun _ _ h' => absurd h' h

/-- **Every quote is behind a backslash**, and every backslash has a character behind it. -/
theorem unescaped?_encode : ∀ cs : List Char, ∃ plain, unescaped? (encode cs) = some plain ∧
    '"' ∉ plain
  | [] => ⟨[], rfl, List.not_mem_nil⟩
  | c :: cs => by
    obtain ⟨plain, h, hq⟩ := unescaped?_encode cs
    rw [encode_cons]
    rcases encodeChar_spec c with ⟨d, hd, -⟩ | ⟨hc, hb, hne, -⟩
    · refine ⟨plain, ?_, hq⟩
      rw [hd, List.cons_append, List.cons_append, unescaped?, List.nil_append, h]
    · refine ⟨c :: plain, ?_, ?_⟩
      · rw [hc, List.singleton_append, unescaped?_cons hb, h, Option.map_some]
      · simp [hq, hne.symm]

/-- **No line ends** are written. -/
theorem ne_of_mem_encode (h : c ∈ encode cs) : c ≠ '\n' ∧ c ≠ '\r' := by
  obtain ⟨x, -, h⟩ := List.mem_flatMap.mp h
  rcases encodeChar_spec x with ⟨d, hd, -, hn, hr⟩ | ⟨hx, -, -, hn, hr⟩
  · rw [hd] at h
    rcases List.mem_pair.mp h with rfl | rfl
    · decide
    · exact ⟨hn, hr⟩
  · rw [hx, List.mem_singleton] at h
    exact h ▸ ⟨hn, hr⟩

/-- **What is written is read back.** -/
theorem decode?_encode : ∀ cs : List Char, decode? (encode cs) = some cs
  | [] => rfl
  | c :: cs => by
    have ih := decode?_encode cs
    rw [encode_cons]
    rcases encodeChar_spec c with ⟨d, hd, he, -⟩ | ⟨hc, hb, hq, hn, hr⟩
    · rw [hd, List.cons_append, List.cons_append, decode?, List.nil_append, he, ih]
      rfl
    · rw [hc, List.singleton_append, decode?_cons hb (by simp [hq, hn, hr]), ih, Option.map_some]

end Quoted

/-! ## Literals -/

open Quoted

/-- The text of a literal, from its first character to its last. -/
def unquote? (literal : String) : Option String :=
  match literal.toList with
  | '"' :: cs => if cs.getLast? = some '"' then (decode? cs.dropLast).map String.ofList else none
  | _ => none

theorem toList_quote (s : String) : (quote s).toList = '"' :: encode s.toList ++ ['"'] :=
  String.toList_ofList

theorem unquote?_quote (s : String) : unquote? (quote s) = some s := by
  have hlast : (encode s.toList ++ ['"']).getLast? = some '"' := List.getLast?_concat
  have hbody : (encode s.toList ++ ['"']).dropLast = encode s.toList := List.dropLast_concat
  simp [unquote?, toList_quote, hlast, hbody, decode?_encode]

/-- **The literal of a text** is what the replacements write, between two quotes. Between these
there is no quote without a backslash, no line end and no backslash without a character that it
escapes, and it is read back as the text. No two texts have one literal, and the literal of a
literal is read back in two steps. -/
theorem quote_faithful :
    (∀ s : String, ∃ body plain, (quote s).toList = '"' :: body ++ ['"'] ∧
      body = replaceAll replacements s.toList ∧ unescaped? body = some plain ∧ '"' ∉ plain ∧
      '\n' ∉ body ∧ '\r' ∉ body ∧ decode? body = some s.toList ∧ unquote? (quote s) = some s) ∧
    Function.Injective quote ∧
    ∀ s : String, (unquote? (quote (quote s))).bind unquote? = some s := by
  refine ⟨fun s => ?_, fun s t h => ?_, fun s => ?_⟩
  · obtain ⟨plain, hplain, hq⟩ := unescaped?_encode s.toList
    exact ⟨encode s.toList, plain, toList_quote s, encode_eq_replaceAll _, hplain, hq,
      fun hn => (ne_of_mem_encode hn).1 rfl, fun hr => (ne_of_mem_encode hr).2 rfl,
      decode?_encode _, unquote?_quote s⟩
  · have hs := unquote?_quote s
    rw [h, unquote?_quote t] at hs
    exact (Option.some.inj hs).symm
  · rw [unquote?_quote, Option.bind_some, unquote?_quote]

/-- A text with a quote, a backslash and a line feed in it, quoted twice. -/
example : quote (quote "a\"\\\n") = "\"\\\"a\\\\\\\"\\\\\\\\\\\\n\\\"\"" := by decide

/-! ## Literals with code behind them -/

/-- The character that is meant behind a backslash. -/
def Quoted.decodeChar : Char → Char
  | 'n' => '\n'
  | 'r' => '\r'
  | 't' => '\t'
  | c => c

/-- The text of a literal, read from behind its opening quote, and what stands behind the closing
one. -/
def readQuoted : List Char → Option (List Char × List Char)
  | [] => none
  | '"' :: behind => some ([], behind)
  | ['\\'] => none
  | '\\' :: c :: cs =>
    (readQuoted cs).map fun (text, behind) => (Quoted.decodeChar c :: text, behind)
  | c :: cs => (readQuoted cs).map fun (text, behind) => (c :: text, behind)

theorem decodeChar_of_escaped? {c d : Char} (h : escaped? d = some c) : decodeChar d = c := by
  unfold escaped? at h
  split at h <;> cases h <;> rfl

theorem readQuoted_encodeChar (c : Char) (cs : List Char) : readQuoted (encodeChar c ++ cs) =
    (readQuoted cs).map fun (text, behind) => (c :: text, behind) := by
  rcases encodeChar_spec c with ⟨d, hd, he, -⟩ | ⟨hc, hb, hq, -⟩
  · rw [hd, List.cons_append, List.singleton_append, readQuoted, decodeChar_of_escaped? he]
  · rw [hc, List.singleton_append, readQuoted]
    · exact hq
    · exact fun h _ => hb h
    · exact fun _ _ h _ => hb h

/-- **A quoted text is read back**, whatever stands behind its literal. -/
theorem readQuoted_encode (cs behind : List Char) :
    readQuoted (encode cs ++ '"' :: behind) = some (cs, behind) := by
  induction cs with
  | nil => rw [encode, List.flatMap_nil, List.nil_append, readQuoted]
  | cons c cs ih =>
    rw [encode_cons, List.append_assoc, readQuoted_encodeChar, ih, Option.map_some]

end SchemaForge.Code
