import Spreadsheet.Proofs.Reversing

/-!
# Spanning: ranges move with their corners

A corner that is fixed on the axis of an edit stays, and any other goes where its line goes. A range whose corners
both go somewhere becomes the range between them, whatever order they are given in (`spans_corners`). There is one
exception. The corners are put in order before they move and not afterwards: when only one of them is fixed they
can pass each other (`Crosses`), and then the range is lost although neither corner is.
-/

namespace Spreadsheet

open Grid

namespace LineEdit

variable {d : LineEdit} {limit : Nat}

/-- The corners of a range in the order of their lines. -/
def corners (d : LineEdit) (a b : Address) : Address × Address :=
  if d.lineOf a ≤ d.lineOf b then (a, b) else (b, a)

/-- The corners of a range pass each other along the axis. -/
def Crosses (d : LineEdit) (a b a' b' : Address) : Prop :=
  (d.lineOf a ≤ d.lineOf b ∧ d.lineOf b' < d.lineOf a') ∨ (d.lineOf b < d.lineOf a ∧ d.lineOf a' < d.lineOf b')

instance (d : LineEdit) (a b a' b' : Address) : Decidable (d.Crosses a b a' b') :=
  inferInstanceAs (Decidable (_ ∨ _))

/-- A corner that goes somewhere goes there as a first and as a last corner too. -/
theorem edges_of_addressImage? {a a' : Address} (h : d.addressImage? limit a = some a') :
    (if d.isFixed a then d.lineOf a else d.lowEdge (d.lineOf a)) = d.lineOf a' ∧
      (if d.isFixed a then some (d.lineOf a) else d.highEdge? (d.lineOf a)) = some (d.lineOf a') ∧
      d.withLine a (d.lineOf a') = a' := by
  unfold addressImage? at h
  split at h
  · next hfixed =>
    cases h
    rw [if_pos hfixed, if_pos hfixed]
    exact ⟨rfl, rfl, withLine_lineOf d a⟩
  · next hfree =>
    obtain ⟨n, hn, rfl⟩ := Option.map_eq_some_iff.mp h
    obtain ⟨hmoved, -⟩ := image?_eq_some.mp hn
    rw [if_neg hfree, if_neg hfree, lineOf_withLine]
    refine ⟨?_, ?_, rfl⟩
    · unfold lowEdge
      rw [hmoved]
      rfl
    · unfold highEdge?
      rw [hmoved]

/-- A fixed corner stays on its line, and a free one goes where its line goes. -/
theorem lineOf_of_addressImage? {a a' : Address} (h : d.addressImage? limit a = some a') :
    (d.isFixed a = true ∧ d.lineOf a' = d.lineOf a) ∨
      (d.isFixed a = false ∧ d.moved? (d.lineOf a) = some (d.lineOf a')) := by
  unfold addressImage? at h
  split at h
  · next hfixed =>
    cases h
    exact Or.inl ⟨hfixed, rfl⟩
  · next hfree =>
    obtain ⟨n, hn, rfl⟩ := Option.map_eq_some_iff.mp h
    rw [lineOf_withLine]
    exact Or.inr ⟨Bool.eq_false_iff.mpr hfree, (image?_eq_some.mp hn).1⟩

/-- Where a corner goes is on the grid. -/
theorem lineOf_le_of_addressImage? {a a' : Address} (hwithin : d.lineOf a ≤ limit)
    (h : d.addressImage? limit a = some a') : d.lineOf a' ≤ limit := by
  unfold addressImage? at h
  split at h
  · cases h
    exact hwithin
  · obtain ⟨n, hn, rfl⟩ := Option.map_eq_some_iff.mp h
    rw [lineOf_withLine]
    exact (image?_eq_some.mp hn).2

section Corners

variable {a b a' b' : Address} (ha : d.addressImage? limit a = some a') (hb : d.addressImage? limit b = some b')
include ha hb

/-- An ordered range becomes what its corners become, if they are still ordered. -/
theorem orderedImage?_of_corners (hwithin : d.lineOf a ≤ limit) (hwithin' : d.lineOf b ≤ limit) :
    d.orderedImage? limit a b = if d.lineOf a' ≤ d.lineOf b' then some (a', b') else none := by
  obtain ⟨hfirst, -, hcorner⟩ := edges_of_addressImage? ha
  obtain ⟨-, hlast, hcorner'⟩ := edges_of_addressImage? hb
  have hle := lineOf_le_of_addressImage? hwithin ha
  have hle' := lineOf_le_of_addressImage? hwithin' hb
  unfold orderedImage?
  rw [hfirst, hlast]
  dsimp only
  rw [Nat.min_eq_left hle', hcorner, hcorner']
  exact if_congr (and_iff_left hle) rfl rfl

/-- A corner that passes another one is free and the other one is not: a first corner in an insertion, a last one
in a deletion. -/
theorem isFixed_of_crossed (hcount : d.lineOf a ≤ lastLine) (hle : d.lineOf a ≤ d.lineOf b)
    (hcrossed : d.lineOf b' < d.lineOf a') :
    d.isFixed a = decide (d.change = .deletion) ∧ d.isFixed b = decide (d.change = .insertion) := by
  rcases lineOf_of_addressImage? ha with ⟨hfixed, hline⟩ | ⟨hfree, hmoved⟩ <;>
    rcases lineOf_of_addressImage? hb with ⟨hfixed', hline'⟩ | ⟨hfree', hmoved'⟩
  · omega
  · cases hchange : d.change with
    | insertion =>
      have hon := eq_of_moved?_of_insertion hchange hmoved'
      omega
    | deletion => exact ⟨hfixed, hfree'⟩
  · cases hchange : d.change with
    | insertion => exact ⟨hfree, hfixed'⟩
    | deletion =>
      have hback := eq_of_moved?_of_deletion hchange hmoved
      omega
  · exact absurd (moved?_mono hcount hmoved hmoved' hle) (Nat.not_le.mpr hcrossed)

/-- **A range becomes what its corners span afterwards**, unless they pass each other; then it is lost. They do
so only if one of them is fixed and the other one is not: in an insertion the last one, in a deletion the first. -/
theorem spans_corners {columns rows : Nat} (hlimit : limit = d.along columns rows) (hcount : limit ≤ lastLine)
    (hwithin : a.isWithin columns rows = true) (hwithin' : b.isWithin columns rows = true) :
    (¬d.Crosses a b a' b' → ∃ first last, d.rangeImage? limit a b = some (first, last) ∧
        Rect.ofCorners first last = Rect.ofCorners a' b') ∧
      (d.Crosses a b a' b' → d.rangeImage? limit a b = none ∧
        d.isFixed (d.corners a b).1 = decide (d.change = .deletion) ∧
        d.isFixed (d.corners a b).2 = decide (d.change = .insertion)) := by
  have hline : d.lineOf a ≤ limit := hlimit ▸ ((isWithin_address_iff d _ _ _).mp hwithin).1.2
  have hline' : d.lineOf b ≤ limit := hlimit ▸ ((isWithin_address_iff d _ _ _).mp hwithin').1.2
  unfold rangeImage? corners
  refine ⟨fun hcrosses => ?_, fun hcrosses => ?_⟩
  · unfold Crosses at hcrosses
    split
    · next hle =>
      rw [orderedImage?_of_corners ha hb hline hline', if_pos (by omega)]
      exact ⟨a', b', rfl, rfl⟩
    · next hlt =>
      rw [orderedImage?_of_corners hb ha hline' hline, if_pos (by omega)]
      exact ⟨b', a', rfl, ofCorners_comm b' a'⟩
  · rcases hcrosses with ⟨hle, hcrossed⟩ | ⟨hlt, hcrossed⟩
    · rw [if_pos hle, if_pos hle, orderedImage?_of_corners ha hb hline hline', if_neg (Nat.not_le.mpr hcrossed)]
      exact ⟨rfl, isFixed_of_crossed ha hb (hline.trans hcount) hle hcrossed⟩
    · rw [if_neg (Nat.not_le.mpr hlt), if_neg (Nat.not_le.mpr hlt), orderedImage?_of_corners hb ha hline' hline,
        if_neg (Nat.not_le.mpr hcrossed)]
      exact ⟨rfl, isFixed_of_crossed hb ha (hline'.trans hcount) (Nat.le_of_lt hlt) hcrossed⟩

end Corners

/-- A range with its corners in reverse order, of which only one is fixed, shrinks by the deleted rows. -/
theorem spans_corners_reversed :
    let d : LineEdit := ⟨.rows, .deletion, 2, 3⟩
    d.addressImage? 32767 ⟨2, 9, false, false⟩ = some ⟨2, 6, false, false⟩ ∧
      d.addressImage? 32767 ⟨1, 1, true, true⟩ = some ⟨1, 1, true, true⟩ ∧
      ∃ first last, d.rangeImage? 32767 ⟨2, 9, false, false⟩ ⟨1, 1, true, true⟩ = some (first, last) ∧
        Rect.ofCorners first last = Rect.ofCorners ⟨2, 6, false, false⟩ ⟨1, 1, true, true⟩ := by
  have ha : LineEdit.addressImage? ⟨.rows, .deletion, 2, 3⟩ 32767 ⟨2, 9, false, false⟩ =
      some ⟨2, 6, false, false⟩ := by decide
  have hb : LineEdit.addressImage? ⟨.rows, .deletion, 2, 3⟩ 32767 ⟨1, 1, true, true⟩ = some ⟨1, 1, true, true⟩ := by
    decide
  have hlimit : 32767 = LineEdit.along ⟨.rows, .deletion, 2, 3⟩ 32767 32767 := rfl
  obtain ⟨hspans, -⟩ := spans_corners ha hb hlimit (by decide) (by decide) (by decide)
  exact ⟨ha, hb, hspans (by decide)⟩

/-- **A range can be lost although both of its corners stay on the grid**: ten rows in front of `A1:A$5` move the
first corner past the last one. -/
theorem not_spans_fixedLast :
    let d : LineEdit := ⟨.rows, .insertion, 1, 10⟩
    let first := Address.plain 1 1
    let last : Address := ⟨1, 5, false, true⟩
    (first.isWithin 32767 32767 = true ∧ last.isWithin 32767 32767 = true) ∧
      d.addressImage? 32767 first = some (Address.plain 1 11) ∧ d.addressImage? 32767 last = some last ∧
      d.rangeImage? 32767 first last = none := by
  decide

end LineEdit

end Spreadsheet
