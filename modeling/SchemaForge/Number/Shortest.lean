import SchemaForge.Number.Double

/-!
# Shortest decimal text of a double

The digits printed for a double are the fewest that read back as it, and among those the nearest to
it. A grid of `n` significant digits has two points around the value; the first grid with a point
inside the interval of reals that round to the double wins.

* `Double.shortest`: the digits and the place of the decimal point.
* `Double.text`: positional notation while the exponent is at least `-4` and below `16`.
-/

namespace SchemaForge

namespace Double

/-- The least `e` with `num / den < 10 ^ e`, for a positive quotient. -/
def pointPlace (num den : Nat) : Int :=
  let guess : Int := (digitCount num : Int) - (digitCount den : Int)
  let reaches :=
    if guess < 0 then den ≤ num * Nat.pow 10 guess.natAbs else den * Nat.pow 10 guess.natAbs ≤ num
  if reaches then guess + 1 else guess

/-- The reals that round to `mantissa * 2 ^ exponent` lie between these two numbers, given with the
value itself as numerators over one denominator: lower end, value, upper end, denominator. -/
def neighbourhood (mantissa : Nat) (exponent : Int) : Nat × Nat × Nat × Nat :=
  let (num, den) := fraction mantissa exponent
  -- one unit of the mantissa, over the denominator
  let unit := num / mantissa
  let narrow := mantissa == Nat.pow 2 52 && exponent != -1074
  (4 * num - (if narrow then unit else 2 * unit), 4 * num, 4 * num + 2 * unit, 4 * den)

/-- The point of the grid `10 ^ place` that reads back as the double with this neighbourhood: the
nearer of the two around the value, if one lies inside. -/
def gridPoint (even : Bool) (low value high den : Nat) (place : Int) : Option Nat :=
  let scale := Nat.pow 10 place.natAbs
  -- all four numbers as multiples of the grid's step
  let (low, value, high, den) :=
    if place < 0 then (low * scale, value * scale, high * scale, den)
    else (low, value, high, den * scale)
  let below := value / den
  let above := below + 1
  let inside (point : Nat) : Bool :=
    if even then low ≤ point * den && point * den ≤ high
    else low < point * den && point * den < high
  let toBelow := value - below * den
  let toAbove := above * den - value
  let preferBelow := toBelow < toAbove || (toBelow == toAbove && below % 2 == 0)
  match inside below, inside above with
  | true, true => some (if preferBelow then below else above)
  | true, false => some below
  | false, true => some above
  | false, false => none

/-- Tries grids of more and more digits. -/
def firstGrid (even : Bool) (low value high den : Nat) (point : Int) : List Nat → Nat × Int
  | [] => (0, 0)
  | count :: rest =>
    let place := point - count
    match gridPoint even low value high den place with
    | some digits => (digits, place)
    | none => firstGrid even low value high den point rest

/-- The shortest decimal that reads back as `mantissa * 2 ^ exponent`, as digits times a power of
ten. -/
def shortest (mantissa : Nat) (exponent : Int) : Nat × Int :=
  let (num, den) := fraction mantissa exponent
  let (low, value, high, den') := neighbourhood mantissa exponent
  let counts := (List.range 17).map (· + 1)
  firstGrid (mantissa % 2 == 0) low value high den' (pointPlace num den) counts

/-- Drops the zeros at the end of a list of digits. -/
def trimZeros (digits : List Char) : List Char :=
  (digits.reverse.dropWhile (· == '0')).reverse

/-- An exponent is written with its sign and at least two digits. -/
def exponentText (exponent : Int) : List Char :=
  let digits := Nat.toDigits 10 exponent.natAbs
  let padded := if digits.length < 2 then '0' :: digits else digits
  'e' :: (if exponent < 0 then '-' else '+') :: padded

/-- Digits with the decimal point after the first `point` of them. A value from `0.0001` up to
below `10 ^ 16` is written positionally, with at least one digit after the point. -/
def layout (digits : List Char) (point : Int) : List Char :=
  if -4 < point && point ≤ 16 then
    if point ≤ 0 then '0' :: '.' :: (List.replicate point.natAbs '0' ++ digits)
    else
      let whole := point.natAbs
      if digits.length ≤ whole then
        digits ++ List.replicate (whole - digits.length) '0' ++ ['.', '0']
      else digits.take whole ++ '.' :: digits.drop whole
  else
    match digits with
    | [] => []
    | first :: rest =>
      (if rest.isEmpty then [first] else first :: '.' :: rest) ++ exponentText (point - 1)

/-- The text of a double: shortest digits, `inf`, `-inf` or `nan`. -/
def text : Double → String
  | .nan => "nan"
  | .infinite negative => if negative then "-inf" else "inf"
  | .finite negative mantissa exponent =>
    let magnitude :=
      if mantissa = 0 then ['0', '.', '0']
      else
        let (digits, place) := shortest mantissa exponent
        let all := Nat.toDigits 10 digits
        layout (trimZeros all) (place + all.length)
    String.ofList (if negative then '-' :: magnitude else magnitude)

end Double

end SchemaForge
