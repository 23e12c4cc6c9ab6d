import SchemaForge.Json.Reader
import SchemaForge.Text.Basic
import SchemaForge.Value.Basic

/-!
# Scalars of YAML 1.1

A plain scalar is more than text if its spelling is that of null, a boolean, a number or a moment.

* `Tag.ofPlain`: the tag of a plain scalar by its spelling.
* `Scalar.int?`, `Scalar.float?`, `Scalar.momentParts?`: the values of spellings.
-/

namespace SchemaForge.Yaml

namespace Tag

/-- A tag of the core schema. -/
def core (name : String) : String := "tag:yaml.org,2002:" ++ name

end Tag

namespace Scalar

/-! ## Spellings -/

/-- A text without the sign at its start, and whether that is a minus. -/
def dropSign : List Char → Bool × List Char
  | '-' :: rest => (true, rest)
  | '+' :: rest => (false, rest)
  | cs => (false, cs)

/-- Digits and underscores, a digit first. -/
def isDigits : List Char → Bool
  | [] => false
  | c :: rest => c.isDigit && rest.all fun c => c.isDigit || c == '_'

/-- Digits and underscores, a digit other than zero first. -/
def isCount (cs : List Char) : Bool := isDigits cs && cs.head? != some '0'

/-- At least one character, each a digit of a base or an underscore. -/
def isDigitsIn (p : Char → Bool) (cs : List Char) : Bool :=
  !cs.isEmpty && cs.all fun c => p c || c == '_'

/-- One or two digits below sixty. -/
def isSixtieth : List Char → Bool
  | [d] => d.isDigit
  | [t, d] => '0' ≤ t && t ≤ '5' && d.isDigit
  | _ => false

/-- Whether a text is spelt as an integer. -/
def isInt (cs : List Char) : Bool :=
  match (dropSign cs).2 with
  | '0' :: rest =>
    rest.isEmpty || isDigitsIn (fun c => '0' ≤ c && c ≤ '7') rest
      || (rest.head? == some 'b' && isDigitsIn (fun c => c == '0' || c == '1') rest.tail)
      || (rest.head? == some 'x' && isDigitsIn (fun c => (Json.hexValue? c).isSome) rest.tail)
  | cs =>
    isCount cs ||
      match Text.split ':' cs with
      | first :: second :: more => isCount first && (second :: more).all isSixtieth
      | _ => false

/-- Whether a text is empty or spelt as the exponent of a number. -/
def isExponent : List Char → Bool
  | [] => true
  | e :: sign :: digits =>
    (e == 'e' || e == 'E') && (sign == '+' || sign == '-') && !digits.isEmpty
      && digits.all Char.isDigit
  | _ => false

/-- Whether a text is spelt as the digits and the exponent after a point. -/
def isFraction (cs : List Char) : Bool :=
  isExponent (cs.dropWhile fun c => c.isDigit || c == '_')

/-- Whether a text is spelt as a number with a point, as an infinity or as no number. -/
def isFloat (cs : List Char) : Bool :=
  let unsigned := (dropSign cs).2
  let special (names : List String) (cs : List Char) : Bool :=
    names.any fun name => name.toList == cs
  special [".nan", ".NaN", ".NAN"] cs || special [".inf", ".Inf", ".INF"] unsigned
    || (match cs with
      | '.' :: d :: rest => d.isDigit && isFraction rest
      | _ => false)
    || (match Text.split '.' unsigned with
      | [whole, fraction] =>
        (isDigits whole && isFraction fraction)
          || (match Text.split ':' whole with
            | first :: second :: more =>
              isDigits first && (second :: more).all isSixtieth
                && fraction.all fun c => c.isDigit || c == '_'
            | _ => false)
      | _ => false)

/-- The booleans by their spellings in lower case. -/
def booleans : List (String × Bool) := [
  ("yes", true), ("no", false), ("true", true), ("false", false), ("on", true), ("off", false)]

/-- The spellings of a word: in lower case, with a capital, in upper case. -/
def spellings (word : String) : List String := [word, word.capitalize, word.map Char.toUpper]

/-! ## Numbers -/

/-- A text without underscores. -/
def dropUnderscores (cs : List Char) : List Char := cs.filter (· != '_')

/-- The number that digits spell in a base. -/
def inBase? (base : Nat) (cs : List Char) : Option Nat :=
  if cs.isEmpty then none
  else cs.foldlM (fun n c => do
    let d ← Json.hexValue? c
    if d < base then some (base * n + d) else none) 0

/-- The number that pieces between colons spell in base sixty. -/
def inSixties? (cs : List Char) : Option Nat :=
  (Text.split ':' cs).foldlM (fun n piece => do return 60 * n + (← inBase? 10 piece)) 0

/-- The integer of a spelling, if it has one. -/
def int? (text : String) : Option Int := do
  let (negative, cs) := dropSign (dropUnderscores text.toList)
  let n ← match cs with
    | ['0'] => some 0
    | '0' :: 'b' :: rest => inBase? 2 rest
    | '0' :: 'x' :: rest => inBase? 16 rest
    | '0' :: rest => inBase? 8 ('0' :: rest)
    | cs => if cs.contains ':' then inSixties? cs else inBase? 10 cs
  return if negative then -(n : Int) else n

/-- The product of a positive double and a number, rounded. -/
def times (d : Double) (n : Nat) : Double :=
  match d with
  | .finite negative m q =>
    let (num, den) := Double.fraction m q
    .ofRatio negative (num * n) den
  | d => d

/-- The sum of two positive doubles, rounded. -/
def plus (a b : Double) : Double :=
  match a, b with
  | .finite _ m q, .finite _ m' q' =>
    let (num, den) := Double.fraction m q
    let (num', den') := Double.fraction m' q'
    .ofRatio false (num * den' + num' * den) (den * den')
  | .finite .., b => b
  | a, _ => a

/-- The double of an unsigned spelling with digits, a point and an exponent. -/
def decimal? (cs : List Char) : Option Double := do
  let (whole, rest) := (cs.takeWhile Char.isDigit, cs.dropWhile Char.isDigit)
  let (fraction, rest) := match rest with
    | '.' :: rest => (rest.takeWhile Char.isDigit, rest.dropWhile Char.isDigit)
    | rest => ([], rest)
  if whole.isEmpty && fraction.isEmpty then none
  else
    let exponent ← match rest with
      | [] => some 0
      | e :: rest =>
        let (negative, digits) := dropSign rest
        if (e == 'e' || e == 'E') && !digits.isEmpty && digits.all Char.isDigit then
          let n : Int := Json.digitsValue digits
          some (if negative then -n else n)
        else none
    let digits := Json.digitsValue (whole ++ fraction)
    return Double.ofDecimal false digits (exponent - fraction.length)

/-- The double that pieces between colons spell in base sixty: each piece is weighted and added,
the last piece first. -/
def sixties? (cs : List Char) : Option Double := do
  let pieces ← (Text.split ':' cs).mapM decimal?
  let (sum, _) := pieces.reverse.foldl (fun (sum, base) d => (plus sum (times d base), 60 * base))
    (Double.zero false, 1)
  return sum

/-- A double with a sign. -/
def withSign (negative : Bool) : Double → Double
  | .finite s m q => .finite (s != negative) m q
  | .infinite s => .infinite (s != negative)
  | .nan => .nan

/-- The double of a spelling, if it has one. -/
def float? (text : String) : Option Double := do
  let (negative, cs) := dropSign ((dropUnderscores text.toList).map Char.toLower)
  let d ←
    if cs == ".inf".toList || cs == "inf".toList || cs == "infinity".toList then
      some (Double.infinite false)
    else if cs == ".nan".toList || cs == "nan".toList then some Double.nan
    else if cs.contains ':' then sixties? cs
    else decimal? cs
  return withSign negative d

/-! ## Moments -/

/-- At least one and at most some digits, as a number. -/
def digitsUpTo (least most : Nat) (cs : List Char) : Option (Nat × List Char) :=
  let digits := (cs.take most).takeWhile Char.isDigit
  if digits.length < least then none else some (Json.digitsValue digits, cs.drop digits.length)

/-- A text after one character that must be at its start. -/
def after? (c : Char) : List Char → Option (List Char)
  | d :: rest => if d == c then some rest else none
  | [] => none

/-- The offset at the end of a moment: nothing, a `Z`, or a signed number of hours and minutes. -/
def offset? (cs : List Char) : Option (Option Int) := do
  let cs := cs.dropWhile fun c => c == ' ' || c == '\t'
  match cs with
  | [] => some none
  | ['Z'] => some (some 0)
  | sign :: rest =>
    if sign == '+' || sign == '-' then
      let (hours, rest) ← digitsUpTo 1 2 rest
      let minutes ← match rest with
        | [] => some 0
        | rest => do
          let (minutes, rest) ← digitsUpTo 2 2 (← after? ':' rest)
          if rest.isEmpty then some minutes else none
      let n : Int := 60 * hours + minutes
      some (some (if sign == '-' then -n else n))
    else none

/-- The time of day in a moment, up to its offset. A fraction counts to the sixth digit. -/
def time? (cs : List Char) : Option ((Nat × Nat × Nat × Nat) × List Char) := do
  let (hour, rest) ← digitsUpTo 1 2 cs
  let (minute, rest) ← digitsUpTo 2 2 (← after? ':' rest)
  let (second, rest) ← digitsUpTo 2 2 (← after? ':' rest)
  match rest with
  | '.' :: rest =>
    let digits := rest.takeWhile Char.isDigit
    let six := (digits ++ List.replicate 6 '0').take 6
    return ((hour, minute, second, Json.digitsValue six), rest.dropWhile Char.isDigit)
  | rest => return ((hour, minute, second, 0), rest)

/-- The parts of a spelling of a moment, in their ranges or not, and whether month and day have two
digits each. A blank at the very end belongs to a missing offset and is not allowed. -/
def momentParts? (text : String) : Option (Moment × Bool) := do
  let (year, rest) ← digitsUpTo 4 4 text.toList
  let rest ← after? '-' rest
  let (month, afterMonth) ← digitsUpTo 1 2 rest
  let rest' ← after? '-' afterMonth
  let (day, afterDay) ← digitsUpTo 1 2 rest'
  let full := rest.length - afterMonth.length == 2 && rest'.length - afterDay.length == 2
  match afterDay with
  | [] => return ({ year, month, day, time := none, offset := none }, full)
  | c :: rest =>
    let isBlank (c : Char) : Bool := c == ' ' || c == '\t'
    let rest ←
      if c == 'T' || c == 't' then some rest
      else if isBlank c then some (rest.dropWhile isBlank)
      else none
    let (time, rest) ← time? rest
    if rest.all isBlank && !rest.isEmpty then none
    else return ({ year, month, day, time := some time, offset := ← offset? rest }, full)

/-- Whether a text is spelt as a moment. A day alone has two digits for the month and the day. -/
def isMoment (text : String) : Bool :=
  match momentParts? text with
  | some (m, full) => full || m.time.isSome
  | none => false

/-- The number of days in a month. -/
def daysIn (year month : Nat) : Nat :=
  if month == 2 then
    if year % 4 == 0 && (year % 100 != 0 || year % 400 == 0) then 29 else 28
  else if month == 4 || month == 6 || month == 9 || month == 11 then 30
  else 31

/-- Whether all parts of a moment are in their ranges. -/
def isPossible (m : Moment) : Bool :=
  1 ≤ m.year && 1 ≤ m.month && m.month ≤ 12 && 1 ≤ m.day && m.day ≤ daysIn m.year m.month
    && (m.time.all fun (hour, minute, second, _) => hour < 24 && minute < 60 && second < 60)
    && m.offset.all fun o => o.natAbs < 1440

end Scalar

namespace Tag

/-- The tag of a plain scalar by its spelling. -/
def ofPlain (text : String) : String :=
  let cs := text.toList
  if text == "" || text == "~" || (Scalar.spellings "null").contains text then core "null"
  else if Scalar.booleans.any fun (word, _) => (Scalar.spellings word).contains text then
    core "bool"
  else if Scalar.isFloat cs then core "float"
  else if Scalar.isInt cs then core "int"
  else if text == "<<" then core "merge"
  else if Scalar.isMoment text then core "timestamp"
  else if text == "=" then core "value"
  else if text == "!" || text == "&" || text == "*" then core "yaml"
  else core "str"

end Tag

end SchemaForge.Yaml
