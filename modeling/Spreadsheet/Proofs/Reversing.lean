import Spreadsheet.Proofs.Adjusting

/-!
# Reversing: lines that are inserted and deleted again

An insertion moves lines apart and a deletion of the same lines moves them together (`LineEdit.reversed`). What
the insertion does not push off the grid comes back to where it was:

* cells (`exists_positionImage?`) and rectangles (`exists_rectImage?_reversed`);
* references that are not fixed on the axis (`adjusted_adjusted`). A range comes back with its corners in the
  order of their lines, and means what it meant (`resolve_ordered`).

Points, first lines and last lines of ranges move alike here (`shifted`), since the deleted lines are those that
nothing came to.
-/

namespace Spreadsheet

open Grid

namespace LineEdit

variable {d : LineEdit} {limit : Nat}

/-- The deletion of the lines of an insertion. -/
def reversed (d : LineEdit) : LineEdit := { d with change := .deletion }

/-- Where a line goes when lines are inserted and none is pushed off. -/
def shifted (d : LineEdit) (line : Nat) : Nat := if line < d.line then line else line + d.count

/-- Whether the corners of a reference stay on the grid when lines are inserted. -/
def HasRoom (d : LineEdit) (limit : Nat) : Reference → Prop
  | .cell _ a => d.lineOf a + d.count ≤ limit
  | .range _ a b => d.lineOf a + d.count ≤ limit ∧ d.lineOf b + d.count ≤ limit
  | .name _ => True

instance (d : LineEdit) (limit : Nat) : (r : Reference) → Decidable (d.HasRoom limit r)
  | .cell _ a => inferInstanceAs (Decidable (d.lineOf a + d.count ≤ limit))
  | .range _ a b => inferInstanceAs (Decidable (d.lineOf a + d.count ≤ limit ∧ d.lineOf b + d.count ≤ limit))
  | .name _ => inferInstanceAs (Decidable True)

/-- A reference with its corners in the order of their lines. -/
def ordered (d : LineEdit) : Reference → Reference
  | .range sheet a b => if d.lineOf a ≤ d.lineOf b then .range sheet a b else .range sheet b a
  | r => r

theorem withLine_withLine (d : LineEdit) (a : Address) (m n : Nat) :
    d.withLine (d.withLine a m) n = d.withLine a n := by
  unfold withLine
  cases d.axis <;> rfl

theorem withLine_lineOf (d : LineEdit) (a : Address) : d.withLine a (d.lineOf a) = a := by
  unfold withLine lineOf
  cases d.axis <;> rfl

theorem isFixed_withLine (d : LineEdit) (a : Address) (n : Nat) : d.isFixed (d.withLine a n) = d.isFixed a := by
  unfold isFixed withLine
  cases d.axis <;> rfl

/-- An adjusted reference refers to the same sheet. -/
theorem refersTo_adjusted (d : LineEdit) (limit : Nat) (home id : SheetId) (name : String) (r : Reference) :
    (d.adjusted limit home id name r).refersTo home id name = r.refersTo home id name := by
  unfold adjusted
  split
  · cases himage : d.referenceImage? limit r with
    | none => rfl
    | some r' =>
      have hsheet : r'.sheet? = r.sheet? := by
        cases r with
        | cell _ _ =>
          obtain ⟨_, -, rfl⟩ := Option.map_eq_some_iff.mp himage
          rfl
        | range _ _ _ =>
          obtain ⟨_, -, rfl⟩ := Option.map_eq_some_iff.mp himage
          rfl
        | name _ =>
          cases himage
          rfl
      unfold Reference.refersTo
      rw [Option.getD_some, hsheet]
  · rfl

/-! ### Lines -/

theorem shifted_le (d : LineEdit) (line : Nat) : d.shifted line ≤ line + d.count := by
  unfold shifted
  split <;> omega

theorem shifted_le_shifted (d : LineEdit) {line line' : Nat} : d.shifted line ≤ d.shifted line' ↔ line ≤ line' := by
  unfold shifted
  split <;> split <;> omega

/-- The deletion brings a line back. -/
theorem moved?_shifted (d : LineEdit) (line : Nat) : d.reversed.moved? (d.shifted line) = some line := by
  unfold shifted
  split
  · next hlt => exact moved?_of_lt hlt
  · next hge =>
    have hbehind : d.line ≤ line + d.count := by omega
    have hkept : ¬line + d.count - d.line < d.count := by omega
    refine (moved?_deletion (d := d.reversed) rfl hbehind).trans ?_
    rw [show d.reversed.line = d.line from rfl, show d.reversed.count = d.count from rfl, if_neg hkept,
      Nat.add_sub_cancel]

theorem lowEdge_shifted (d : LineEdit) (line : Nat) : d.reversed.lowEdge (d.shifted line) = line := by
  unfold lowEdge
  rw [moved?_shifted]
  rfl

theorem highEdge?_shifted (d : LineEdit) (line : Nat) :
    d.reversed.highEdge? (d.shifted line) = some line := by
  unfold highEdge?
  rw [moved?_shifted]

section Insertion

variable (hinserts : d.change = .insertion) (hlimit : limit ≤ lastLine)
include hinserts hlimit

/-- The insertion moves a line that has room. -/
theorem moved?_eq_shifted {line : Nat} (h : line + d.count ≤ limit) : d.moved? line = some (d.shifted line) := by
  unfold shifted
  split
  · next hlt => exact moved?_of_lt hlt
  · next hge =>
    rw [moved?_insertion hinserts (Nat.not_lt.mp hge)]
    unfold advance
    rw [Nat.min_eq_left (h.trans hlimit)]

theorem lowEdge_eq_shifted {line : Nat} (h : line + d.count ≤ limit) : d.lowEdge line = d.shifted line := by
  unfold lowEdge
  rw [moved?_eq_shifted hinserts hlimit h]
  rfl

theorem highEdge?_eq_shifted {line : Nat} (h : line + d.count ≤ limit) :
    d.highEdge? line = some (d.shifted line) := by
  unfold highEdge?
  rw [moved?_eq_shifted hinserts hlimit h]

/-- A line that has room goes somewhere and comes back. -/
theorem image?_shifted {line : Nat} (h : line + d.count ≤ limit) :
    d.image? limit line = some (d.shifted line) ∧ d.reversed.image? limit (d.shifted line) = some line :=
  ⟨image?_eq_some.mpr ⟨moved?_eq_shifted hinserts hlimit h, (d.shifted_le line).trans h⟩,
    image?_eq_some.mpr ⟨d.moved?_shifted line, (Nat.le_add_right _ _).trans h⟩⟩

/-! ### Positions -/

/-- A position that has room goes somewhere and comes back. -/
theorem exists_positionImage? {id : SheetId} {p : Position}
    (h : p.sheet = id → d.lineOf p.address + d.count ≤ limit) :
    ∃ q, d.positionImage? limit id p = some q ∧ d.reversed.positionImage? limit id q = some p := by
  by_cases hp : p.sheet = id
  · obtain ⟨himage, hback⟩ := image?_shifted hinserts hlimit (h hp)
    refine ⟨.ofAddress id (d.withLine p.address (d.shifted (d.lineOf p.address))),
      positionImage?_eq_some.mpr ⟨hp.symm, ?_⟩, positionImage?_eq_some.mpr ⟨hp, ?_⟩⟩
    · rw [if_pos hp]
      exact ⟨himage.trans (congrArg some (lineOf_withLine d _ _).symm), crossOf_withLine d _ _⟩
    · rw [if_pos (show (Position.ofAddress id _).sheet = id from rfl)]
      refine ⟨?_, (crossOf_withLine d p.address _).symm⟩
      refine Eq.trans (congrArg _ ?_) hback
      exact lineOf_withLine d p.address _
  · exact ⟨p, positionImage?_eq_some.mpr ⟨rfl, by rw [if_neg hp]⟩, positionImage?_eq_some.mpr ⟨rfl, by rw [if_neg hp]⟩⟩

/-! ### References and rectangles -/

section Free

variable {a b : Address} (ha : d.isFixed a = false) (hb : d.isFixed b = false)
  (hroom : d.lineOf a + d.count ≤ limit) (hroom' : d.lineOf b + d.count ≤ limit)
include ha hroom

/-- A free address that has room goes somewhere and comes back. -/
theorem exists_addressImage? :
    ∃ a', d.addressImage? limit a = some a' ∧ d.reversed.addressImage? limit a' = some a := by
  obtain ⟨himage, hback⟩ := image?_shifted hinserts hlimit hroom
  refine ⟨d.withLine a (d.shifted (d.lineOf a)), ?_, ?_⟩
  · unfold addressImage?
    rw [ha, if_neg Bool.false_ne_true, himage]
    rfl
  · have hfree : d.reversed.isFixed (d.withLine a (d.shifted (d.lineOf a))) = false :=
      (isFixed_withLine d a _).trans ha
    have hline : d.reversed.lineOf (d.withLine a (d.shifted (d.lineOf a))) = d.shifted (d.lineOf a) :=
      lineOf_withLine d a _
    unfold addressImage?
    rw [hfree, if_neg Bool.false_ne_true, hline, hback]
    exact congrArg some ((withLine_withLine d a _ _).trans (withLine_lineOf d a))

include hb hroom'

/-- So does an ordered range. -/
theorem exists_orderedImage? (h : d.lineOf a ≤ d.lineOf b) :
    ∃ a' b', d.orderedImage? limit a b = some (a', b') ∧ d.lineOf a' ≤ d.lineOf b' ∧
      d.isFixed a' = false ∧ d.isFixed b' = false ∧ d.reversed.orderedImage? limit a' b' = some (a, b) := by
  have hle := d.shifted_le_shifted.mpr h
  have hfirst := (d.shifted_le (d.lineOf a)).trans hroom
  have hlast := (d.shifted_le (d.lineOf b)).trans hroom'
  have hfree := (isFixed_withLine d a (d.shifted (d.lineOf a))).trans ha
  have hfree' := (isFixed_withLine d b (d.shifted (d.lineOf b))).trans hb
  refine ⟨d.withLine a (d.shifted (d.lineOf a)), d.withLine b (d.shifted (d.lineOf b)), ?_, ?_, hfree, hfree', ?_⟩
  · rw [orderedImage?_of_free ha hb, highEdge?_eq_shifted hinserts hlimit hroom',
      lowEdge_eq_shifted hinserts hlimit hroom, Option.bind_some, if_pos ⟨hle, hfirst⟩, Nat.min_eq_left hlast]
  · rw [lineOf_withLine, lineOf_withLine]
    exact hle
  · have hline : d.reversed.lineOf (d.withLine a (d.shifted (d.lineOf a))) = d.shifted (d.lineOf a) :=
      lineOf_withLine d a _
    have hline' : d.reversed.lineOf (d.withLine b (d.shifted (d.lineOf b))) = d.shifted (d.lineOf b) :=
      lineOf_withLine d b _
    have hwithin : d.lineOf a ≤ limit ∧ d.lineOf b ≤ limit := by omega
    rw [orderedImage?_of_free (d := d.reversed) hfree hfree', hline, hline', highEdge?_shifted, lowEdge_shifted,
      Option.bind_some, if_pos ⟨h, hwithin.1⟩, Nat.min_eq_left hwithin.2]
    refine congrArg some (Prod.ext ?_ ?_)
    · exact (withLine_withLine d a _ _).trans (withLine_lineOf d a)
    · exact (withLine_withLine d b _ _).trans (withLine_lineOf d b)

/-- A range comes back with its corners in order. -/
theorem exists_rangeImage? :
    ∃ a' b', d.rangeImage? limit a b = some (a', b') ∧ d.isFixed a' = false ∧ d.isFixed b' = false ∧
      d.reversed.rangeImage? limit a' b' = some (if d.lineOf a ≤ d.lineOf b then (a, b) else (b, a)) := by
  have hback : ∀ {a' b' : Address} {result}, d.lineOf a' ≤ d.lineOf b' →
      d.reversed.orderedImage? limit a' b' = some result → d.reversed.rangeImage? limit a' b' = some result := by
    intro a' b' result hle himage
    unfold rangeImage?
    exact (if_pos hle).trans himage
  unfold rangeImage?
  split
  · next hle =>
    obtain ⟨a', b', himage, hle', hfree, hfree', hreversed⟩ :=
      exists_orderedImage? hinserts hlimit ha hb hroom hroom' hle
    exact ⟨a', b', himage, hfree, hfree', hback hle' hreversed⟩
  · next hlt =>
    obtain ⟨b', a', himage, hle', hfree, hfree', hreversed⟩ :=
      exists_orderedImage? hinserts hlimit hb ha hroom' hroom (by omega)
    exact ⟨b', a', himage, hfree, hfree', hback hle' hreversed⟩

end Free

/-- A rectangle that has room goes somewhere and comes back. -/
theorem exists_rectImage?_reversed {r : Rect} (h : d.lineOf r.bottomRight + d.count ≤ limit) :
    ∃ r', d.rectImage? limit r = some r' ∧ d.reversed.rectImage? limit r' = some r := by
  have hfree : d.isFixed r.topLeft = false ∧ d.isFixed r.bottomRight = false := by
    unfold isFixed
    cases d.axis <;> exact ⟨rfl, rfl⟩
  have hroom : d.lineOf r.topLeft + d.count ≤ limit := by
    have hle := lineOf_le d r
    omega
  have hcorners : Rect.ofCorners r.topLeft r.bottomRight = r := by
    have hcols := r.left_le_right
    have hrows := r.top_le_bottom
    unfold Rect.ofCorners Rect.span
    rw [Rect.mk.injEq]
    exact ⟨Nat.min_eq_left hcols, Nat.min_eq_left hrows, Nat.max_eq_right hcols, Nat.max_eq_right hrows⟩
  obtain ⟨a', b', himage, ha', hb', hback⟩ := exists_rangeImage? hinserts hlimit hfree.1 hfree.2 hroom h
  refine ⟨Rect.ofCorners a' b', ?_, ?_⟩
  · unfold rectImage?
    rw [himage]
    rfl
  · rw [if_pos (lineOf_le d r)] at hback
    rw [rectImage?_ofCorners (d := d.reversed) ha' hb', hback]
    exact congrArg some hcorners

/-- A free reference that has room becomes something, and that comes back with its corners in order. -/
theorem exists_referenceImage? {r : Reference} (hfree : d.isFree r = true) (hroom : d.HasRoom limit r) :
    ∃ r', d.referenceImage? limit r = some r' ∧ d.reversed.referenceImage? limit r' = some (d.ordered r) := by
  cases r with
  | cell sheet a =>
    obtain ⟨a', himage, hback⟩ :=
      exists_addressImage? hinserts hlimit ((Bool.not_eq_true' _).mp hfree) hroom
    exact ⟨.cell sheet a', congrArg (Option.map _) himage, congrArg (Option.map _) hback⟩
  | range sheet a b =>
    unfold isFree at hfree
    rw [Bool.and_eq_true, Bool.not_eq_true', Bool.not_eq_true'] at hfree
    obtain ⟨a', b', himage, -, -, hback⟩ := exists_rangeImage? hinserts hlimit hfree.1 hfree.2 hroom.1 hroom.2
    refine ⟨.range sheet a' b', congrArg (Option.map _) himage, (congrArg (Option.map _) hback).trans ?_⟩
    show (some (if d.lineOf a ≤ d.lineOf b then (a, b) else (b, a))).map _ =
      some (if d.lineOf a ≤ d.lineOf b then Reference.range sheet a b else .range sheet b a)
    split <;> rfl
  | name n => exact ⟨.name n, rfl, rfl⟩

section Adjusted

variable {home id : SheetId} {name : String} {r : Reference}
  (h : r.refersTo home id name = true → d.isFree r = true ∧ d.HasRoom limit r)
include h

/-- What a reference becomes is not lost in the deletion. -/
theorem exists_adjusted (hrefers : r.refersTo home id name = true) :
    d.reversed.referenceImage? limit (d.adjusted limit home id name r) = some (d.ordered r) := by
  obtain ⟨hfree, hroom⟩ := h hrefers
  obtain ⟨r', himage, hback⟩ := exists_referenceImage? hinserts hlimit hfree hroom
  unfold adjusted
  rw [if_pos hrefers, himage]
  exact hback

/-- **A reference comes back with its corners in order**, if the insertion pushes none of them off the grid. -/
theorem adjusted_adjusted :
    d.reversed.adjusted limit home id name (d.adjusted limit home id name r) =
      if r.refersTo home id name then d.ordered r else r := by
  by_cases hrefers : r.refersTo home id name = true
  · have hback := exists_adjusted hinserts hlimit h hrefers
    have hrefers' := (refersTo_adjusted d limit home id name r).trans hrefers
    rw [if_pos hrefers]
    generalize d.adjusted limit home id name r = r' at hback hrefers'
    unfold adjusted
    rw [if_pos hrefers', hback]
    rfl
  · have hadjusted : ∀ d' : LineEdit, d'.adjusted limit home id name r = r := fun d' => if_neg hrefers
    rw [hadjusted, hadjusted, if_neg hrefers]

end Adjusted

end Insertion

end LineEdit

/-- A reference with its corners in order is a name if it is one. -/
theorem LineEdit.name?_ordered (d : LineEdit) (r : Reference) : (d.ordered r).name? = r.name? := by
  cases r with
  | range sheet a b =>
    show (if d.lineOf a ≤ d.lineOf b then Reference.range sheet a b else .range sheet b a).name? = none
    split <;> rfl
  | _ => rfl

/-- A reference with its corners in order means what it means. -/
theorem Scope.resolve_ordered (scope : Scope) (d : LineEdit) (r : Reference) (home : SheetId) (a : Area) :
    scope.resolve (d.ordered r) home = .ok a ↔ scope.resolve r home = .ok a := by
  cases r with
  | range sheet first last =>
    show scope.resolve (if d.lineOf first ≤ d.lineOf last then .range sheet first last else .range sheet last first)
      home = .ok a ↔ _
    split
    · rfl
    · rw [resolve_range, resolve_range, LineEdit.ofCorners_comm]
  | _ => rfl

end Spreadsheet
