import Mathlib.Data.List.Basic
import SchemaForge.Dialect.ArkType
import SchemaForge.Proofs.Logged

/-!
# Patterns in the type language

A pattern stands between slashes in the type language, with a backslash before each of its own. Who
reads the literal pairs every backslash with the character behind it, and stops at the first slash
that is in no such pair.

* `Token`: a character of a regular expression, or a backslash with the character behind it.
* `readLiteral?`: what is read behind an opening slash; **`readLiteral?_eq_some`**: where it stops.
* `escapeSlashes_chars`: what escaping does to tokens. A slash that has its backslash loses it.
* **`delimits_pattern`**, **`pattern_delimited_iff`**: the literal of a pattern ends at its last
  character exactly when no slash of the pattern has a backslash already, and no backslash stands
  alone at its end.
-/

namespace SchemaForge.Dialect.ArkType.Pattern

open Code (Stretch Wording escapeSlashes)

/-! ## Tokens -/

/-- A character of a regular expression, or a backslash with the character behind it. -/
inductive Token where
  | plain (c : Char) (h : c ≠ '\\')
  | escaped (c : Char)
  deriving DecidableEq

namespace Token

/-- A slash that is in no pair. -/
abbrev slash : Token := .plain '/' (by decide)

/-- The text of a token. -/
def chars : Token → List Char
  | .plain c _ => [c]
  | .escaped c => ['\\', c]

/-- The token with a backslash, if it is a slash. -/
def guarded (t : Token) : Token := if t = slash then .escaped '/' else t

/-- The token without its backslash, if it is a slash. -/
def unescaped (t : Token) : Token := if t = .escaped '/' then slash else t

/-- What a backslash before each slash makes of a token. -/
def overEscaped (t : Token) : List Token :=
  if t = .escaped '/' then [.escaped '\\', slash] else [t.guarded]

end Token

/-- The text of tokens. -/
def chars (ts : List Token) : List Char := ts.flatMap Token.chars

/-- The tokens of a regular expression; none if it ends with a backslash that is in no pair. -/
def tokens? : List Char → Option (List Token)
  | [] => some []
  | c :: cs =>
    if h : c = '\\' then
      match cs with
      | [] => none
      | d :: rest => (tokens? rest).map (.escaped d :: ·)
    else (tokens? cs).map (.plain c h :: ·)

/-- The tokens up to the first slash that is in no pair, and what stands behind it. -/
def readLiteral? : List Char → Option (List Token × List Char)
  | [] => none
  | c :: cs =>
    if h : c = '\\' then
      match cs with
      | [] => none
      | d :: rest => (readLiteral? rest).map fun (ts, behind) => (.escaped d :: ts, behind)
    else if c = '/' then some ([], cs)
    else (readLiteral? cs).map fun (ts, behind) => (.plain c h :: ts, behind)

/-- A literal is read from its first character to its last, as the tokens of its body. -/
def Delimits (literal : List Char) (body : List Token) : Prop :=
  ∃ cs, literal = '/' :: cs ∧ readLiteral? cs = some (body, [])

variable {ts body : List Token} {cs behind : List Char}

theorem chars_cons (t : Token) (ts : List Token) : chars (t :: ts) = t.chars ++ chars ts :=
  List.flatMap_cons

/-- The tokens of a text make the text, but for a backslash that stands alone at its end. -/
theorem exists_chars (cs : List Char) : ∃ ts, cs = chars ts ∨ cs = chars ts ++ ['\\'] := by
  induction cs using tokens?.induct with
  | case1 => exact ⟨[], .inl rfl⟩
  | case2 => exact ⟨[], .inr rfl⟩
  | case3 d rest ih =>
    obtain ⟨ts, hts⟩ := ih
    exact ⟨.escaped d :: ts, hts.imp (congrArg ('\\' :: d :: ·)) (congrArg ('\\' :: d :: ·))⟩
  | case4 c cs h ih =>
    obtain ⟨ts, hts⟩ := ih
    exact ⟨.plain c h :: ts, hts.imp (congrArg (c :: ·)) (congrArg (c :: ·))⟩

theorem tokens?_plain {c : Char} (h : c ≠ '\\') (cs : List Char) :
    tokens? (c :: cs) = (tokens? cs).map (.plain c h :: ·) := by
  rw [tokens?.eq_def]
  exact dif_neg h

theorem tokens?_escaped (c : Char) (cs : List Char) :
    tokens? ('\\' :: c :: cs) = (tokens? cs).map (.escaped c :: ·) := by
  rw [tokens?, dif_pos rfl]

theorem tokens?_append (ts : List Token) (rest : List Char) :
    tokens? (chars ts ++ rest) = (tokens? rest).map (ts ++ ·) := by
  induction ts with
  | nil => simp [chars]
  | cons t ts ih =>
    rw [chars_cons]
    cases t with
    | plain c h => simp [Token.chars, tokens?_plain h, ih, Function.comp_def]
    | escaped c => simp [Token.chars, tokens?_escaped, ih, Function.comp_def]

/-- **A text has its tokens.** -/
theorem tokens?_chars (ts : List Token) : tokens? (chars ts) = some ts := by
  simpa [tokens?] using tokens?_append ts []

theorem tokens?_dangling (ts : List Token) : tokens? (chars ts ++ ['\\']) = none := by
  rw [tokens?_append]
  rfl

theorem tokens?_eq_some : tokens? cs = some ts ↔ cs = chars ts := by
  refine ⟨fun h => ?_, fun h => h ▸ tokens?_chars ts⟩
  obtain ⟨us, rfl | rfl⟩ := exists_chars cs
  · rw [tokens?_chars] at h
    rw [Option.some.inj h]
  · rw [tokens?_dangling] at h
    cases h

theorem chars_injective {us : List Token} (h : chars ts = chars us) : ts = us :=
  Option.some.inj ((tokens?_chars ts).symm.trans (h ▸ tokens?_chars us))

/-! ## Literals -/

theorem readLiteral?_plain {c : Char} (h : c ≠ '\\') (hs : c ≠ '/') (cs : List Char) :
    readLiteral? (c :: cs) =
      (readLiteral? cs).map fun (ts, behind) => (.plain c h :: ts, behind) := by
  rw [readLiteral?.eq_def]
  exact (dif_neg h).trans (if_neg hs)

theorem readLiteral?_slash (cs : List Char) : readLiteral? ('/' :: cs) = some ([], cs) := by
  rw [readLiteral?.eq_def]
  exact (dif_neg (by decide)).trans (if_pos rfl)

theorem readLiteral?_escaped (c : Char) (cs : List Char) :
    readLiteral? ('\\' :: c :: cs) =
      (readLiteral? cs).map fun (ts, behind) => (.escaped c :: ts, behind) := by
  rw [readLiteral?, dif_pos rfl]

theorem readLiteral?_chars (h : Token.slash ∉ ts) (behind : List Char) :
    readLiteral? (chars ts ++ '/' :: behind) = some (ts, behind) := by
  induction ts with
  | nil => exact readLiteral?_slash behind
  | cons t ts ih =>
    rw [List.mem_cons, not_or] at h
    rw [chars_cons]
    cases t with
    | plain c hc =>
      have hslash : c ≠ '/' := fun hs => h.1 (by simp [Token.slash, hs])
      simp [Token.chars, readLiteral?_plain hc hslash, ih h.2]
    | escaped c => simp [Token.chars, readLiteral?_escaped, ih h.2]

/-- **The tokens of a literal** are those up to the first slash that is in no pair. -/
theorem readLiteral?_eq_some : readLiteral? cs = some (ts, behind) ↔
    Token.slash ∉ ts ∧ cs = chars ts ++ '/' :: behind := by
  refine ⟨fun h => ?_, fun ⟨hs, hcs⟩ => hcs ▸ readLiteral?_chars hs behind⟩
  induction cs using readLiteral?.induct generalizing ts with
  | case1 => cases h
  | case2 => simp [readLiteral?] at h
  | case3 d rest ih =>
    rw [readLiteral?_escaped] at h
    simp only [Option.map_eq_some_iff, Prod.exists, Prod.mk.injEq] at h
    obtain ⟨us, _, hread, rfl, rfl⟩ := h
    obtain ⟨hs, hcs⟩ := ih hread
    exact ⟨by simpa using hs, congrArg ('\\' :: d :: ·) hcs⟩
  | case4 cs hne =>
    rw [readLiteral?_slash, Option.some.injEq, Prod.mk.injEq] at h
    obtain ⟨rfl, rfl⟩ := h
    exact ⟨List.not_mem_nil, rfl⟩
  | case5 c cs hne hslash ih =>
    rw [readLiteral?_plain hne hslash] at h
    simp only [Option.map_eq_some_iff, Prod.exists, Prod.mk.injEq] at h
    obtain ⟨us, _, hread, rfl, rfl⟩ := h
    obtain ⟨hs, hcs⟩ := ih hread
    refine ⟨?_, congrArg (c :: ·) hcs⟩
    simpa [hs] using Ne.symm hslash

/-! ## Escaping -/

theorem escapeSlashes_append (cs ds : List Char) :
    escapeSlashes (cs ++ ds) = escapeSlashes cs ++ escapeSlashes ds := List.flatMap_append

theorem escapeSlashes_token (t : Token) : escapeSlashes t.chars = chars t.overEscaped := by
  cases t with
  | plain c h =>
    by_cases hs : c = '/'
    · subst hs
      rfl
    · simp [Token.chars, Token.overEscaped, Token.guarded, Token.slash, hs, chars, escapeSlashes]
  | escaped c =>
    by_cases hs : c = '/'
    · subst hs
      rfl
    · simp [Token.chars, Token.overEscaped, Token.guarded, hs, chars, escapeSlashes]

/-- **What escaping does to tokens.** -/
theorem escapeSlashes_chars (ts : List Token) :
    escapeSlashes (chars ts) = chars (ts.flatMap Token.overEscaped) := by
  induction ts with
  | nil => rfl
  | cons t ts ih =>
    rw [chars_cons, escapeSlashes_append, escapeSlashes_token, ih, List.flatMap_cons]
    exact List.flatMap_append.symm

theorem overEscaped_eq (h : Token.escaped '/' ∉ ts) :
    ts.flatMap Token.overEscaped = ts.map Token.guarded := by
  induction ts with
  | nil => rfl
  | cons t ts ih =>
    rw [List.mem_cons, not_or] at h
    rw [List.flatMap_cons, List.map_cons, ih h.2, Token.overEscaped, if_neg (Ne.symm h.1)]
    rfl

theorem slash_not_mem_guarded (ts : List Token) : Token.slash ∉ ts.map Token.guarded := by
  intro h
  obtain ⟨t, -, ht⟩ := List.mem_map.mp h
  unfold Token.guarded at ht
  split at ht
  · cases ht
  · exact absurd ht ‹_›

theorem slash_mem_overEscaped (h : Token.escaped '/' ∈ ts) :
    Token.slash ∈ ts.flatMap Token.overEscaped :=
  List.mem_flatMap.mpr ⟨_, h, by simp [Token.overEscaped]⟩

theorem unescaped_guarded {t : Token} (h : t ≠ .escaped '/') : t.guarded.unescaped = t := by
  unfold Token.guarded
  split
  · rename_i hs
    rw [hs]
    rfl
  · rw [Token.unescaped, if_neg h]

/-! ## The literal of a pattern -/

theorem toList_pattern (p : String) :
    (Stretch.pattern p).text.toList = '/' :: (escapeSlashes p.toList ++ ['/']) := by
  simp [Stretch.text]

/-- **The literal of a pattern is read to its last character** exactly when the pattern has tokens
and none of them is a slash with a backslash; then its slashes have one in the literal. -/
theorem delimits_pattern {p : String} : Delimits (Stretch.pattern p).text.toList body ↔
    ∃ ts, tokens? p.toList = some ts ∧ Token.escaped '/' ∉ ts ∧ body = ts.map Token.guarded := by
  have hread : Delimits (Stretch.pattern p).text.toList body ↔
      Token.slash ∉ body ∧ escapeSlashes p.toList = chars body := by
    rw [toList_pattern, Delimits]
    simp only [List.cons.injEq, true_and, exists_eq_left', readLiteral?_eq_some,
      List.append_cancel_right_eq]
  rw [hread]
  simp only [tokens?_eq_some]
  constructor
  · rintro ⟨hslash, hchars⟩
    obtain ⟨ts, hts | hts⟩ := exists_chars p.toList
    · rw [hts, escapeSlashes_chars] at hchars
      obtain rfl := chars_injective hchars
      have hnone : Token.escaped '/' ∉ ts := fun hm => hslash (slash_mem_overEscaped hm)
      exact ⟨ts, hts, hnone, overEscaped_eq hnone⟩
    · -- the backslash at the end of the pattern is in no pair
      have hdangling := tokens?_dangling (ts.flatMap Token.overEscaped)
      rw [hts, escapeSlashes_append, escapeSlashes_chars] at hchars
      change chars _ ++ ['\\'] = _ at hchars
      rw [hchars, tokens?_chars] at hdangling
      cases hdangling
  · rintro ⟨ts, hts, hnone, rfl⟩
    exact ⟨slash_not_mem_guarded ts, by rw [hts, escapeSlashes_chars, overEscaped_eq hnone]⟩

/-! ## Texts with a pattern -/

theorem join_concat (between : String) (last : Wording) : ∀ {l : List Wording}, l ≠ [] →
    Wording.join between (l ++ [last]) = Wording.join between l ++ .own between :: last
  | [_], _ => rfl
  | w :: next :: l, _ => by
    change w ++ .own between :: Wording.join between ((next :: l) ++ [last]) =
      (w ++ .own between :: Wording.join between (next :: l)) ++ .own between :: last
    rw [join_concat between last (List.cons_ne_nil next l), List.append_assoc, List.cons_append]

/-- **Main statement.** The text of a schema with a pattern ends with the literal of the pattern.
This literal is read from its first character to its last exactly when the pattern has tokens, that
is, no backslash stands alone at its end, and none of them is a slash with a backslash. Then the
pattern has the tokens of the literal, without the backslashes of their slashes. -/
theorem pattern_delimited_iff (ctx : Context) (depth : Nat) (fmt : Option String)
    (least most d : Value) {p : String} (hp : p ≠ "") :
    ∃ before, (render ctx depth (.string fmt least most (.str p) d)).outcome =
        .ok (.text (before ++ [.own " & ", .pattern p])) ∧
      ((∃ body, Delimits (Stretch.pattern p).text.toList body) ↔
        ∃ ts, tokens? p.toList = some ts ∧ Token.escaped '/' ∉ ts) ∧
      ∀ body, Delimits (Stretch.pattern p).text.toList body →
        tokens? p.toList = some (body.map Token.unescaped) := by
  let parts : List Wording := [.own (format fmt)] ::
    boundWording "string >= " Value.display least ++ boundWording "string <= " Value.display most
  refine ⟨Wording.join " & " parts, ?_, ?_, fun body hbody => ?_⟩
  · have hpattern : patternWording (.str p) = .ok [[.pattern p]] := by
      rw [patternWording, if_pos]
      simpa [Value.isGiven] using hp
    rw [render, Logged.outcome_lift, string, hpattern]
    have hjoin : Wording.join " & " (parts ++ [[.pattern p]]) = _ :=
      join_concat " & " [.pattern p] (List.cons_ne_nil _ _)
    exact congrArg (fun w => Except.ok (Definition.text w)) hjoin
  · constructor
    · rintro ⟨body, hbody⟩
      obtain ⟨ts, hts, hnone, -⟩ := delimits_pattern.mp hbody
      exact ⟨ts, hts, hnone⟩
    · rintro ⟨ts, hts, hnone⟩
      exact ⟨_, delimits_pattern.mpr ⟨ts, hts, hnone, rfl⟩⟩
  · obtain ⟨ts, hts, hnone, rfl⟩ := delimits_pattern.mp hbody
    rw [hts, List.map_map]
    have hsame : ts.map (Token.unescaped ∘ Token.guarded) = ts.map id :=
      List.map_congr_left fun t ht => unescaped_guarded fun h => hnone (h ▸ ht)
    rw [hsame, List.map_id]

/-- The schema of texts that match a pattern. -/
def matching (pattern : String) : Schema := .string none .null .null (.str pattern) .null

/-- A pattern with a slash, a pair for a dot and a pair for a backslash at its end. -/
def versionPath : String := "^/v\\.\\\\"

theorem versionPath_delimited : versionPath ≠ "" ∧
    (∃ before, (render default 0 (matching versionPath)).outcome =
      .ok (.text (before ++ [.own " & ", .pattern versionPath]))) ∧
    ∃ body, Delimits (Stretch.pattern versionPath).text.toList body ∧
      tokens? versionPath.toList = some (body.map Token.unescaped) := by
  have hne : versionPath ≠ "" := by decide
  obtain ⟨before, hrender, hiff, htokens⟩ :=
    pattern_delimited_iff default 0 none .null .null .null hne
  obtain ⟨body, hbody⟩ := hiff.mpr ⟨[.plain '^' (by decide), .slash, .plain 'v' (by decide),
    .escaped '.', .escaped '\\'], by rw [tokens?_eq_some]; decide, by decide⟩
  exact ⟨hne, ⟨before, hrender⟩, body, hbody, htokens body hbody⟩

/-- A pattern whose slash has its backslash. -/
def guardedSlash : String := "a\\/b"

/-- Escaping pairs the two backslashes, and the literal ends at the slash of the pattern. -/
theorem guardedSlash_not_delimited :
    (render default 0 (matching guardedSlash)).outcome =
        .ok (.text [.own "string", .own " & ", .pattern guardedSlash]) ∧
      tokens? guardedSlash.toList =
        some [.plain 'a' (by decide), .escaped '/', .plain 'b' (by decide)] ∧
      ¬ ∃ body, Delimits (Stretch.pattern guardedSlash).text.toList body := by
  have htokens : tokens? guardedSlash.toList =
      some [.plain 'a' (by decide), .escaped '/', .plain 'b' (by decide)] := by
    rw [tokens?_eq_some]
    decide
  refine ⟨by rw [matching, render]; rfl, htokens, fun ⟨body, hbody⟩ => ?_⟩
  obtain ⟨ts, hts, hnone, -⟩ := delimits_pattern.mp hbody
  obtain rfl := Option.some.inj (htokens.symm.trans hts)
  exact hnone (by decide)

end SchemaForge.Dialect.ArkType.Pattern
