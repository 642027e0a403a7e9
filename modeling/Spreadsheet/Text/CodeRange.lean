/-!
# Tables of character codes

Large character classes are lists of closed intervals of codes, and the case mappings are lists of
evenly spaced runs of codes that all move by the same distance. Both are data; this module holds the
two look-ups.
-/

namespace Spreadsheet.Text

/-- The codes from `first` to `last`, both included. -/
structure CodeRange where
  first : Nat
  last : Nat

/-- Whether a table of intervals covers a code. -/
def CodeRange.covers (table : List CodeRange) (code : Nat) : Bool :=
  table.any fun r => r.first ≤ code && code ≤ r.last

/-- Every `step`-th code from `first` to `last` moves by `shift`. -/
structure CodeRun where
  first : Nat
  last : Nat
  step : Nat
  shift : Int

/-- The code that a table of runs sends `code` to, or `code` itself. -/
def CodeRun.apply (table : List CodeRun) (code : Nat) : Nat :=
  match table.find? fun r => r.first ≤ code && code ≤ r.last && (code - r.first) % r.step == 0 with
  | some r => (code + r.shift).toNat
  | none => code

end Spreadsheet.Text
