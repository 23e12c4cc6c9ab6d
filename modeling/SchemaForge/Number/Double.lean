/-!
# Binary64 numbers, exactly

A double is held as a sign, a natural mantissa and a power of two, so every question about it is
answered by integer arithmetic.

* `Double.ofRatio`: the double nearest to a quotient, ties to the even mantissa.
* `Double.ofDecimal`: the double nearest to a decimal number.
* `Double.toInt?`: the integer a double stands for, if it is one.
-/

namespace SchemaForge

/-- A binary64 value. `finite s m q` stands for `m * 2 ^ q`, negated when `s` is set; the functions
of this module only build canonical ones (`m < 2 ^ 53`, and `q = -1074` when `m < 2 ^ 52`). -/
inductive Double where
  | finite (negative : Bool) (mantissa : Nat) (exponent : Int)
  | infinite (negative : Bool)
  | nan
  deriving DecidableEq, Repr, Inhabited

namespace Double

/-- The zero of the given sign. -/
def zero (negative : Bool) : Double := .finite negative 0 (-1074)

/-- `num / den` rounded to a natural number, a half going to the even neighbour. -/
def roundQuotient (num den : Nat) : Nat :=
  let quotient := num / den
  let twice := 2 * (num % den)
  if den < twice || (twice == den && quotient % 2 == 1) then quotient + 1 else quotient

/-- The power of two of the last place of the double nearest to `num / den`, before a possible
carry: it leaves a mantissa of 53 bits, or is `-1074` for small values. -/
def lastPlace (num den : Nat) : Int :=
  let guess : Int := (Nat.log2 num : Int) - (Nat.log2 den : Int) - 53
  -- the quotient scaled by the guess has 53 or 54 bits
  let scaled :=
    if guess < 0 then num * Nat.pow 2 guess.natAbs / den
    else num / (den * Nat.pow 2 guess.natAbs)
  let place := if scaled < Nat.pow 2 53 then guess else guess + 1
  max place (-1074)

/-- The double nearest to `num / den`, ties to the even mantissa, infinite above the range. -/
def ofRatio (negative : Bool) (num den : Nat) : Double :=
  if num = 0 then zero negative
  else
    let place := lastPlace num den
    let mantissa :=
      if place < 0 then roundQuotient (num * Nat.pow 2 place.natAbs) den
      else roundQuotient num (den * Nat.pow 2 place.natAbs)
    let carried := mantissa == Nat.pow 2 53
    let place := if carried then place + 1 else place
    let mantissa := if carried then Nat.pow 2 52 else mantissa
    if 971 < place then .infinite negative else .finite negative mantissa place

/-- How many decimal digits a natural number has. -/
def digitCount (n : Nat) : Nat := (Nat.toDigits 10 n).length

/-- The double nearest to `digits * 10 ^ exponent`. Far outside the range the power of ten is
never computed. -/
def ofDecimal (negative : Bool) (digits : Nat) (exponent : Int) : Double :=
  let top := (digitCount digits : Int) + exponent
  if digits = 0 || top < -330 then zero negative
  else if 310 < top then .infinite negative
  else if exponent < 0 then ofRatio negative digits (Nat.pow 10 exponent.natAbs)
  else ofRatio negative (digits * Nat.pow 10 exponent.natAbs) 1

/-- A finite magnitude as a fraction. -/
def fraction (mantissa : Nat) (exponent : Int) : Nat × Nat :=
  if exponent < 0 then (mantissa, Nat.pow 2 exponent.natAbs)
  else (mantissa * Nat.pow 2 exponent.natAbs, 1)

/-- The integer that a double stands for, if its value is one. -/
def toInt? : Double → Option Int
  | .finite negative mantissa exponent =>
    let (num, den) := fraction mantissa exponent
    if num % den = 0 then some (if negative then -(num / den : Nat) else (num / den : Nat))
    else none
  | _ => none

end Double

end SchemaForge
