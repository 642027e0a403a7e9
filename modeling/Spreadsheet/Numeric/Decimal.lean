import Spreadsheet.Numeric.Binary

/-!
# Decimal text of numbers

A double is printed with the fewest decimal digits that lie closer to it than to any other double;
among those the nearest decimal, and the larger of two equally near ones. The text is always
positional, however large or small the number. Reading goes the other way: a sign, digits, a point
and a decimal exponent give an exact fraction, and the answer is the double nearest to it.
-/

namespace Spreadsheet.Numeric

/-- The number `digits · 10^exponent`. -/
structure Decimal where
  digits : Nat
  exponent : Int
  deriving DecidableEq, Repr

/-- The decimals on a grid `10^place` next to a number, all three in units of `10^-scale`, that fall
into its rounding interval: the nearer one, the upper of two equally near ones, or none. -/
def nearestOnGrid (lower value upper : Nat) (closed : Bool) (grid : Nat) : Option Nat :=
  let below := value / grid
  let above := below + 1
  let belowFits := if closed then lower ≤ below * grid else lower < below * grid
  let aboveFits := if closed then above * grid ≤ upper else above * grid < upper
  if belowFits && aboveFits then
    some (if above * grid - value ≤ value - below * grid then above else below)
  else if belowFits then some below
  else if aboveFits then some above
  else none

/-- The coarsest grid `10^place`, from the given place downwards, that has a decimal in the interval.
At place zero the value itself is on the grid. -/
def coarsest (lower value upper : Nat) (closed : Bool) (scale : Nat) : Nat → Decimal
  | 0 => ⟨value, -(scale : Int)⟩
  | place + 1 =>
    match nearestOnGrid lower value upper closed (Nat.pow 10 (place + 1)) with
    | some digits => ⟨digits, (place + 1 : Nat) - (scale : Int)⟩
    | none => coarsest lower value upper closed scale place

/-- The shortest decimal that reads back as `m · 2^q`. A quarter of the last place separates the
number from its neighbours' boundaries, so four times the mantissa, and the two boundaries beside it,
are whole multiples of `2^(q-2)`; a power of five more makes them whole multiples of a power of ten.
The boundaries themselves belong to the number when its mantissa is even. -/
def shortest (m : Nat) (q : Int) : Decimal :=
  let scale := (2 - q).toNat
  let unit := if 2 ≤ q then Nat.pow 2 (q - 2).toNat else Nat.pow 5 scale
  let value := 4 * m * unit
  let lower := if m = Nat.pow 2 52 && q ≠ -1074 then (4 * m - 1) * unit else (4 * m - 2) * unit
  let upper := (4 * m + 2) * unit
  coarsest lower value upper (m % 2 == 0) scale (Nat.toDigits 10 value).length

/-- Positional text of a decimal: no exponent, and no zeros beyond those that place the digits. -/
def Decimal.text (d : Decimal) : List Char :=
  let ds := Nat.toDigits 10 d.digits
  if 0 ≤ d.exponent then ds ++ List.replicate d.exponent.toNat '0'
  else
    let places := (-d.exponent).toNat
    if places < ds.length then
      ds.take (ds.length - places) ++ '.' :: ds.drop (ds.length - places)
    else '0' :: '.' :: List.replicate (places - ds.length) '0' ++ ds

/-- The shortest positional text of a double, with a point. -/
def plainText (x : Float) : String :=
  match Binary.ofFloat? x with
  | none => if x.isNaN then "NaN" else if x < 0 then "-inf" else "inf"
  | some b =>
    let sign := if b.negative then ['-'] else []
    let body := if b.mantissa = 0 then ['0'] else (shortest b.mantissa b.exponent).text
    String.ofList (sign ++ body)

/-- The absolute value from which a whole number is printed like any other. -/
def wholeLimit : Nat := Nat.pow 10 15

/-- The text of a number with a given decimal mark. A whole number below the limit has no fraction
and no sign of zero. -/
def text (x : Float) (mark : Char) : String :=
  match Binary.ofFloat? x with
  | some b =>
    if b.isWhole && b.floorAbs < wholeLimit then toString b.truncate else withMark mark (plainText x)
  | none => plainText x
where
  /-- Puts the decimal mark in place of the point. -/
  withMark (mark : Char) (s : String) : String :=
    String.ofList (s.toList.map fun c => if c = '.' then mark else c)

/-! ### Reading -/

/-- A number with one more digit at its end. -/
def appendDigit (n : Nat) (d : Char) : Nat := 10 * n + (d.toNat - '0'.toNat)

/-- The value of a list of digits, most significant first, from the values of its two halves, halved
again as often as `depth` says. -/
def halvedValue : Nat → List Char → Nat
  | 0, ds => ds.foldl appendDigit 0
  | depth + 1, ds =>
    let high := ds.length / 2
    halvedValue depth (ds.take high) * Nat.pow 10 (ds.length - high) + halvedValue depth (ds.drop high)

/-- The value of a list of digits, most significant first. A long list is halved until its parts
are short, so that few products of large numbers are formed. -/
def digitsValue (ds : List Char) : Nat := halvedValue (Nat.log2 (ds.length / 64)) ds

/-- Digits appended to a number shift it by as many places and add their own value. -/
theorem foldl_appendDigit (n : Nat) (ds : List Char) :
    ds.foldl appendDigit n = n * Nat.pow 10 ds.length + ds.foldl appendDigit 0 := by
  induction ds generalizing n with
  | nil => simp
  | cons d ds ih =>
    rw [List.foldl_cons, List.foldl_cons, ih, ih (appendDigit 0 d)]
    simp only [appendDigit, List.length_cons, Nat.pow_eq, Nat.pow_succ, Nat.add_mul, Nat.mul_zero, Nat.zero_add]
    rw [Nat.mul_comm 10 n, Nat.mul_assoc, Nat.mul_comm 10, Nat.add_assoc]

/-- How often the list is halved does not matter. -/
theorem halvedValue_eq_foldl (depth : Nat) (ds : List Char) :
    halvedValue depth ds = ds.foldl appendDigit 0 := by
  induction depth generalizing ds with
  | zero => rfl
  | succ depth ih =>
    conv => rhs; rw [← List.take_append_drop (ds.length / 2) ds]
    rw [List.foldl_append, foldl_appendDigit, List.length_drop, halvedValue, ih, ih]

/-- The value of the digits is what appending them one by one to zero gives. -/
theorem digitsValue_eq_foldl (ds : List Char) : digitsValue ds = ds.foldl appendDigit 0 :=
  halvedValue_eq_foldl _ ds

/-- An exponent that has reached this value takes in no more digits. -/
def exponentLimit : Nat := Nat.pow 2 16

/-- The value of the digits of an exponent. Those that follow once the limit is reached do not count,
so `e655361` means the same as `e65536`. -/
def exponentValue (ds : List Char) : Nat :=
  ds.foldl (fun n d => if n < exponentLimit then appendDigit n d else n) 0

/-- A sign, if there is one, and what follows it. -/
def splitSign : List Char → Bool × List Char
  | '+' :: cs => (false, cs)
  | '-' :: cs => (true, cs)
  | cs => (false, cs)

/-- A decimal mark counts as one only where it is no other part of a number. -/
def isMark (mark c : Char) : Bool :=
  c == mark && !(c.isDigit || c == '+' || c == '-' || c == 'e' || c == 'E')

/-- The exponent at the end of a number: nothing, or `e` and at least one digit with an optional
sign. -/
def readExponent : List Char → Option Int
  | [] => some 0
  | c :: cs =>
    if c = 'e' ∨ c = 'E' then
      let (negative, ds) := splitSign cs
      if ds ≠ [] ∧ ds.all Char.isDigit then
        some (if negative then -(exponentValue ds : Int) else exponentValue ds)
      else none
    else none

/-- The number with the given digits, times `10^exponent`, as a double. Numbers with more than four
hundred places before the point, or as many zeros after it, are too large for a double or round to
zero, and are told apart without computing their power of ten. -/
def ofDigits (ds : List Char) (exponent : Int) : Option Float :=
  let significant := ds.dropWhile (· == '0')
  let places := significant.length + exponent
  if significant = [] ∨ places < -400 then some 0
  else if 400 < places then none
  else nearest (digitsValue significant * Nat.pow 10 exponent.toNat) (Nat.pow 10 (-exponent).toNat)

/-- Reads `[sign] digits [mark digits] [exponent]`, with at least one digit before the exponent; the
value must be finite. -/
def read (mark : Char) (s : String) : Option Float :=
  let (negative, cs) := splitSign s.toList
  let whole := cs.takeWhile Char.isDigit
  let afterWhole := cs.dropWhile Char.isDigit
  let (fraction, tail) : List Char × List Char :=
    match afterWhole with
    | c :: rest =>
      if isMark mark c then (rest.takeWhile Char.isDigit, rest.dropWhile Char.isDigit)
      else ([], afterWhole)
    | [] => ([], [])
  if whole = [] ∧ fraction = [] then none
  else do
    let exponent ← readExponent tail
    let magnitude ← ofDigits (whole ++ fraction) (exponent - fraction.length)
    pure (if negative then -magnitude else magnitude)

end Spreadsheet.Numeric
