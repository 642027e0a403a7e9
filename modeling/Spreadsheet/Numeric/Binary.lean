/-!
# Numbers as binary fractions

A finite double is `± m · 2^q` with natural `m`. This module reads `m` and `q` off the bit pattern,
rounds such a number to an integer in exact arithmetic (toward zero, down, or to the nearest with
halves away from zero), and goes the other way: `nearest` is the double next to a given fraction,
with ties to the even neighbour. Everything that prints, reads or truncates a number rests on these
few functions and needs no floating-point rounding of its own.
-/

namespace Spreadsheet.Numeric

/-- The finite number `mantissa · 2^exponent`, negated when `negative` is set. -/
structure Binary where
  negative : Bool
  mantissa : Nat
  exponent : Int
  deriving DecidableEq, Repr

namespace Binary

/-- The parts of a finite double; `none` for an infinity or a value that is not a number. -/
def ofFloat? (x : Float) : Option Binary :=
  let bits : Nat := x.toBits.toNat
  let biased : Nat := bits / Nat.pow 2 52 % Nat.pow 2 11
  let fraction : Nat := bits % Nat.pow 2 52
  if biased = 2047 then none
  else if biased = 0 then some ⟨bits / Nat.pow 2 63 == 1, fraction, -1074⟩
  else some ⟨bits / Nat.pow 2 63 == 1, fraction + Nat.pow 2 52, (biased : Int) - 1075⟩

/-- The largest natural number not above the absolute value. -/
def floorAbs (b : Binary) : Nat :=
  if 0 ≤ b.exponent then b.mantissa * Nat.pow 2 b.exponent.toNat
  else b.mantissa / Nat.pow 2 (-b.exponent).toNat

/-- The natural number nearest to the absolute value; a half goes up. -/
def roundAbs (b : Binary) : Nat :=
  if 0 ≤ b.exponent then b.mantissa * Nat.pow 2 b.exponent.toNat
  else
    let unit : Nat := Nat.pow 2 (-b.exponent).toNat
    (2 * b.mantissa + unit) / (2 * unit)

/-- Whether the number is an integer. -/
def isWhole (b : Binary) : Bool :=
  0 ≤ b.exponent || b.mantissa % Nat.pow 2 (-b.exponent).toNat == 0

/-- Gives an absolute value the sign of the number. -/
def signed (b : Binary) (n : Nat) : Int :=
  if b.negative then -(n : Int) else (n : Int)

/-- The integer part, toward zero. -/
def truncate (b : Binary) : Int :=
  b.signed b.floorAbs

/-- The nearest integer; a half goes away from zero. -/
def round (b : Binary) : Int :=
  b.signed b.roundAbs

/-- The largest integer not above the number. -/
def floor (b : Binary) : Int :=
  if b.negative && !b.isWhole then -(b.floorAbs : Int) - 1 else b.truncate

end Binary

/-- The least integer that fits into a machine word of 64 bits. -/
def leastWord : Int := -(Nat.pow 2 63 : Int)

/-- The greatest integer that fits into a machine word of 64 bits. -/
def greatestWord : Int := (Nat.pow 2 63 : Int) - 1

/-- The integer part of a double as a machine word: a value that does not fit becomes the nearest
word, and a value that is not a number becomes zero. -/
def truncateToWord (x : Float) : Int64 :=
  match Binary.ofFloat? x with
  | some b => Int64.ofInt (max leastWord (min greatestWord b.truncate))
  | none => if x.isNaN then 0 else if x < 0 then Int64.ofInt leastWord else Int64.ofInt greatestWord

/-- The largest whole number not above `x`; an infinity stays what it is. -/
def floorNumber (x : Float) : Float :=
  match Binary.ofFloat? x with
  | some b => if b.isWhole then x else Float.ofInt b.floor
  | none => x

/-- The nearest whole number, a half away from zero; an infinity stays what it is. -/
def roundNumber (x : Float) : Float :=
  match Binary.ofFloat? x with
  | some b => if b.isWhole then x else Float.ofInt b.round
  | none => x

/-- What is left of `x` when its integer part is taken away, with the sign of `x`. -/
def fractionOf (x : Float) : Float :=
  match Binary.ofFloat? x with
  | some b => if b.isWhole then 0 else x - Float.ofInt b.truncate
  | none => x - x

/-- The double nearest to `num / den`, where a tie goes to the even mantissa; `none` when the
fraction is too large for a finite double. The quotient is cut at the place `2^q` that leaves 53
bits, or at `2^-1074` for the smallest numbers. -/
def nearest (num den : Nat) : Option Float :=
  if num = 0 then some 0
  else
    let guess : Int := max ((num.log2 : Int) - den.log2 - 53) (-1074)
    let q : Int := if quotient num den guess < Nat.pow 2 53 then guess else guess + 1
    let scaledNum := num * Nat.pow 2 (-q).toNat
    let scaledDen := den * Nat.pow 2 q.toNat
    let low := scaledNum / scaledDen
    let rest := scaledNum % scaledDen
    let m := if 2 * rest > scaledDen || (2 * rest == scaledDen && low % 2 == 1) then low + 1 else low
    let bits := if m < Nat.pow 2 52 then m else (q + 1075).toNat * Nat.pow 2 52 + (m - Nat.pow 2 52)
    if bits < 2047 * Nat.pow 2 52 then some (Float.ofBits (UInt64.ofNat bits)) else none
where
  /-- The whole part of `num / den` in units of `2^q`. -/
  quotient (num den : Nat) (q : Int) : Nat :=
    num * Nat.pow 2 (-q).toNat / (den * Nat.pow 2 q.toNat)

end Spreadsheet.Numeric
