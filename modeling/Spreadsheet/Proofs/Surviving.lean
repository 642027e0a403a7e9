import Spreadsheet.Proofs.LineImages

/-!
# Surviving: a rectangle keeps what is left of it

A cell goes where its line goes, and a rectangle is adjusted by its edges. The two fit together
(`keepsSurvivors_of_isWithin`):

* a rectangle is lost just if none of its cells is left;
* otherwise it goes to a rectangle on the grid that contains the cells that are left and, apart from these, only
  inserted lines;
* cells keep their order along the axis, and every line number that is computed on the way is one
  (`StaysCountable`).

Two cells never come together, except where lines are inserted on a grid that has every line that can be counted:
what an insertion pushes beyond the last line is held there (`not_injective_lastLine`).
-/

namespace Spreadsheet

open Grid

namespace LineEdit

variable {d : LineEdit} {limit : Nat}

/-! ### Lines -/

/-- A line that an edit inserts. -/
def IsFresh (d : LineEdit) (line : Nat) : Prop :=
  d.change = .insertion ∧ d.line ≤ line ∧ line < d.line + d.count

theorem moved?_eq_none {line : Nat} (h : d.moved? line = none) :
    d.change = .deletion ∧ d.line ≤ line ∧ line - d.line < d.count := by
  unfold moved? at h
  split at h
  · cases h
  · next hbehind =>
    split at h
    · cases h
    · next hchange =>
      split at h
      · next hgone => exact ⟨hchange, Nat.not_lt.mp hbehind, hgone⟩
      · cases h

theorem lowEdge_of_moved? {line n : Nat} (h : d.moved? line = some n) : d.lowEdge line = n := by
  unfold lowEdge
  rw [h]
  rfl

theorem highEdge?_of_moved? {line n : Nat} (h : d.moved? line = some n) : d.highEdge? line = some n := by
  unfold highEdge?
  rw [h]

/-- What is left of a range lies behind its first edge. -/
theorem lowEdge_le_moved? {first line n : Nat} (hcount : line ≤ lastLine) (hfirst : first ≤ line)
    (h : d.moved? line = some n) : d.lowEdge first ≤ n := by
  cases hmoved : d.moved? first with
  | some m =>
    rw [lowEdge_of_moved? hmoved]
    exact moved?_mono (Nat.le_trans hfirst hcount) hmoved h hfirst
  | none =>
    obtain ⟨-, hbehind, -⟩ := moved?_eq_none hmoved
    have hedge : d.lowEdge first = d.line := by
      unfold lowEdge
      rw [hmoved]
      rfl
    rw [hedge]
    exact line_le_of_moved? (by omega) (Nat.le_trans hbehind hfirst) h

/-- What is left of a range lies before its last edge. -/
theorem moved?_le_highEdge? {last line n : Nat} (hpos : 1 ≤ line) (hcount : line ≤ lastLine) (hlast : line ≤ last)
    (h : d.moved? line = some n) : ∃ edge, d.highEdge? last = some edge ∧ n ≤ edge := by
  cases hmoved : d.moved? last with
  | some m => exact ⟨m, highEdge?_of_moved? hmoved, moved?_mono hcount h hmoved hlast⟩
  | none =>
    obtain ⟨hdeletes, hbehind, hgone⟩ := moved?_eq_none hmoved
    have hbefore : line < d.line := by
      rw [← Nat.not_le]
      intro hle
      rw [moved?_deletion hdeletes hle, if_pos (by omega)] at h
      cases h
    rw [moved?_of_lt hbefore] at h
    cases h
    refine ⟨d.line - 1, ?_, by omega⟩
    unfold highEdge?
    rw [hmoved]
    exact if_pos (by omega)

/-! Where the edges of a range go, by where they are. -/

theorem lowEdge_of_insertion (hinserts : d.change = .insertion) (line : Nat) :
    (line < d.line ∧ d.lowEdge line = line) ∨ (d.line ≤ line ∧ d.lowEdge line = min (line + d.count) lastLine) := by
  rcases Nat.lt_or_ge line d.line with hlt | hge
  · exact Or.inl ⟨hlt, lowEdge_of_moved? (moved?_of_lt hlt)⟩
  · exact Or.inr ⟨hge, lowEdge_of_moved? (moved?_insertion hinserts hge)⟩

theorem highEdge?_of_insertion (hinserts : d.change = .insertion) {line edge : Nat} (h : d.highEdge? line = some edge) :
    (line < d.line ∧ edge = line) ∨ (d.line ≤ line ∧ edge = min (line + d.count) lastLine) := by
  rcases Nat.lt_or_ge line d.line with hlt | hge
  · rw [highEdge?_of_moved? (moved?_of_lt hlt)] at h
    exact Or.inl ⟨hlt, (Option.some.inj h).symm⟩
  · rw [highEdge?_of_moved? (moved?_insertion hinserts hge)] at h
    exact Or.inr ⟨hge, (Option.some.inj h).symm⟩

theorem moved?_of_behind (hdeletes : d.change = .deletion) {line : Nat} (h : d.line + d.count ≤ line) :
    d.moved? line = some (line - d.count) := by
  rw [moved?_deletion hdeletes (by omega), if_neg (by omega)]

theorem moved?_of_deleted (hdeletes : d.change = .deletion) {line : Nat} (hbehind : d.line ≤ line)
    (h : line < d.line + d.count) : d.moved? line = none := by
  rw [moved?_deletion hdeletes hbehind, if_pos (by omega)]

theorem lowEdge_of_deletion (hdeletes : d.change = .deletion) (line : Nat) :
    (line < d.line ∧ d.lowEdge line = line) ∨ (d.line ≤ line ∧ line < d.line + d.count ∧ d.lowEdge line = d.line) ∨
      (d.line + d.count ≤ line ∧ d.lowEdge line = line - d.count) := by
  rcases Nat.lt_or_ge line d.line with hlt | hge
  · exact Or.inl ⟨hlt, lowEdge_of_moved? (moved?_of_lt hlt)⟩
  · rcases Nat.lt_or_ge line (d.line + d.count) with hgone | hbehind
    · refine Or.inr (Or.inl ⟨hge, hgone, ?_⟩)
      unfold lowEdge
      rw [moved?_of_deleted hdeletes hge hgone]
      rfl
    · exact Or.inr (Or.inr ⟨hbehind, lowEdge_of_moved? (moved?_of_behind hdeletes hbehind)⟩)

theorem highEdge?_of_deletion (hdeletes : d.change = .deletion) {line edge : Nat} (h : d.highEdge? line = some edge) :
    (line < d.line ∧ edge = line) ∨ (d.line ≤ line ∧ line < d.line + d.count ∧ edge < d.line) ∨
      (d.line + d.count ≤ line ∧ edge = line - d.count) := by
  rcases Nat.lt_or_ge line d.line with hlt | hge
  · rw [highEdge?_of_moved? (moved?_of_lt hlt)] at h
    exact Or.inl ⟨hlt, (Option.some.inj h).symm⟩
  · rcases Nat.lt_or_ge line (d.line + d.count) with hgone | hbehind
    · refine Or.inr (Or.inl ⟨hge, hgone, ?_⟩)
      unfold highEdge? at h
      rw [moved?_of_deleted hdeletes hge hgone] at h
      dsimp only at h
      split at h
      · have hedge := Option.some.inj h
        omega
      · cases h
    · rw [highEdge?_of_moved? (moved?_of_behind hdeletes hbehind)] at h
      exact Or.inr (Or.inr ⟨hbehind, (Option.some.inj h).symm⟩)

section Edges

variable {first last edge : Nat} (hle : first ≤ last) (hedge : d.highEdge? last = some edge)
include hle hedge

/-- A range that is not lost has a line that is left. -/
theorem exists_image? (hlow : d.lowEdge first ≤ edge) (hlimit : d.lowEdge first ≤ limit) :
    ∃ line, first ≤ line ∧ line ≤ last ∧ ∃ n, d.image? limit line = some n := by
  cases hmoved : d.moved? first with
  | some m =>
    rw [lowEdge_of_moved? hmoved] at hlimit
    exact ⟨first, Nat.le_refl _, hle, m, image?_eq_some.mpr ⟨hmoved, hlimit⟩⟩
  | none =>
    -- The first line is deleted, and the one behind the deletion is left.
    obtain ⟨hdeletes, hbehind, hgone⟩ := moved?_eq_none hmoved
    have hfirst := lowEdge_of_deletion hdeletes first
    have hlast := highEdge?_of_deletion hdeletes hedge
    have hnext := moved?_of_behind hdeletes (Nat.le_refl (d.line + d.count))
    exact ⟨d.line + d.count, by omega, by omega, _, image?_eq_some.mpr ⟨hnext, by omega⟩⟩

/-- A line between the edges of what a range becomes comes from a line of the range, or is inserted. -/
theorem exists_image?_or_isFresh {n : Nat} (hwithin : last ≤ limit) (hcount : limit ≤ lastLine)
    (hlow : d.lowEdge first ≤ n) (hhigh : n ≤ min edge limit) :
    (∃ line, first ≤ line ∧ line ≤ last ∧ d.image? limit line = some n) ∨ d.IsFresh n := by
  have hfrom : ∀ line, first ≤ line → line ≤ last → d.moved? line = some n →
      (∃ line, first ≤ line ∧ line ≤ last ∧ d.image? limit line = some n) ∨ d.IsFresh n :=
    fun line hfirst hlast hmoved =>
      Or.inl ⟨line, hfirst, hlast, image?_eq_some.mpr ⟨hmoved, Nat.le_trans hhigh (Nat.min_le_right _ _)⟩⟩
  cases hchange : d.change with
  | insertion =>
    have hfirst := lowEdge_of_insertion hchange first
    have hlast := highEdge?_of_insertion hchange hedge
    by_cases hbefore : n < d.line
    · exact hfrom n (by omega) (by omega) (moved?_of_lt hbefore)
    · by_cases hfresh : n < d.line + d.count
      · exact Or.inr ⟨hchange, by omega, hfresh⟩
      · -- Where lines are held at the last one of all, the first line of the range may be among them.
        refine hfrom (max first (n - d.count)) (Nat.le_max_left _ _) (by omega) ?_
        rw [moved?_insertion hchange (by omega), advance]
        exact congrArg some (by omega)
  | deletion =>
    have hfirst := lowEdge_of_deletion hchange first
    have hlast := highEdge?_of_deletion hchange hedge
    by_cases hbefore : n < d.line
    · exact hfrom n (by omega) (by omega) (moved?_of_lt hbefore)
    · refine hfrom (n + d.count) (by omega) (by omega) ?_
      rw [moved?_of_behind hchange (by omega), Nat.add_sub_cancel]

end Edges

/-! ### Line numbers -/

/-- A difference of line numbers; none where the first of them is the smaller one. -/
def difference? (m n : Nat) : Option Nat := if n ≤ m then some (m - n) else none

/-- Where a line goes, by differences that can fail. -/
def checkedMoved? (d : LineEdit) (line : Nat) : Option (Option Nat) :=
  if line < d.line then some (some line)
  else
    match d.change with
    | .insertion => some (some (advance line d.count))
    | .deletion => (difference? line d.line).bind fun into =>
        if into < d.count then some none else (difference? line d.count).map some

/-- Where the first line of a range goes, by differences that can fail. -/
def checkedLowEdge (d : LineEdit) (line : Nat) : Option Nat :=
  (d.checkedMoved? line).map fun moved => moved.getD d.line

/-- Where the last line of a range goes, by differences that can fail. -/
def checkedHighEdge? (d : LineEdit) (line : Nat) : Option (Option Nat) :=
  (d.checkedMoved? line).bind fun
    | some n => some (some n)
    | none => if 2 ≤ d.line then (difference? d.line 1).map some else some none

/-- Whatever is computed from a line is a line number: no difference fails, and every result can be counted. -/
structure StaysCountable (d : LineEdit) (line : Nat) : Prop where
  moved : d.checkedMoved? line = some (d.moved? line)
  low : d.checkedLowEdge line = some (d.lowEdge line)
  high : d.checkedHighEdge? line = some (d.highEdge? line)
  moved_le : ∀ n, d.moved? line = some n → n ≤ lastLine
  low_le : d.lowEdge line ≤ lastLine
  high_le : ∀ n, d.highEdge? line = some n → n ≤ lastLine

theorem difference?_of_le {m n : Nat} (h : n ≤ m) : difference? m n = some (m - n) := if_pos h

theorem checkedMoved?_eq (d : LineEdit) (line : Nat) : d.checkedMoved? line = some (d.moved? line) := by
  unfold checkedMoved? moved?
  split
  · rfl
  · next hbehind =>
    cases d.change with
    | insertion => rfl
    | deletion =>
      dsimp only
      rw [difference?_of_le (Nat.not_lt.mp hbehind), Option.bind_some]
      split
      · rfl
      · next hleft =>
        rw [difference?_of_le (by omega)]
        rfl

theorem staysCountable {line : Nat} (hcount : line ≤ lastLine) : d.StaysCountable line where
  moved := checkedMoved?_eq d line
  low := by
    unfold checkedLowEdge lowEdge
    rw [checkedMoved?_eq]
    rfl
  high := by
    unfold checkedHighEdge? highEdge?
    rw [checkedMoved?_eq, Option.bind_some]
    cases d.moved? line with
    | some n => rfl
    | none =>
      dsimp only
      split
      · rw [difference?_of_le (by omega)]
        rfl
      · rfl
  moved_le := fun n h => moved?_le_lastLine hcount h
  low_le := by
    cases hmoved : d.moved? line with
    | some n =>
      rw [lowEdge_of_moved? hmoved]
      exact moved?_le_lastLine hcount hmoved
    | none =>
      obtain ⟨hdeletes, hbehind, hgone⟩ := moved?_eq_none hmoved
      have hedge := lowEdge_of_deletion hdeletes line
      omega
  high_le := by
    intro n h
    cases hmoved : d.moved? line with
    | some m =>
      rw [highEdge?_of_moved? hmoved] at h
      cases h
      exact moved?_le_lastLine hcount hmoved
    | none =>
      obtain ⟨hdeletes, hbehind, hgone⟩ := moved?_eq_none hmoved
      have hedge := highEdge?_of_deletion hdeletes h
      omega

/-! ### Cells -/

/-- The spot on a line along the axis and a line across it. -/
def spotAt (d : LineEdit) (line cross : Nat) : Spot :=
  match d.axis with
  | .rows => ⟨line, cross⟩
  | .columns => ⟨cross, line⟩

theorem lineOf_spotAt (d : LineEdit) (line cross : Nat) : d.lineOf (d.spotAt line cross).address = line := by
  unfold lineOf spotAt
  cases d.axis <;> rfl

theorem crossOf_spotAt (d : LineEdit) (line cross : Nat) : d.crossOf (d.spotAt line cross).address = cross := by
  unfold crossOf spotAt
  cases d.axis <;> rfl

/-- A cell moves along the axis. -/
theorem spotImage?_eq_some {s t : Spot} : d.spotImage? limit s = some t ↔
    d.image? limit (d.lineOf s.address) = some (d.lineOf t.address) ∧
      d.crossOf t.address = d.crossOf s.address := by
  obtain ⟨row, col⟩ := s
  obtain ⟨row', col'⟩ := t
  unfold spotImage? lineOf crossOf
  cases d.axis with
  | rows =>
    dsimp only
    rw [Option.map_eq_some_iff]
    constructor
    · rintro ⟨n, hn, ⟨⟩⟩
      exact ⟨hn, rfl⟩
    · rintro ⟨hn, hcross⟩
      exact ⟨row', hn, by cases hcross; rfl⟩
  | columns =>
    dsimp only
    rw [Option.map_eq_some_iff]
    constructor
    · rintro ⟨n, hn, ⟨⟩⟩
      exact ⟨hn, rfl⟩
    · rintro ⟨hn, hcross⟩
      exact ⟨col', hn, by cases hcross; rfl⟩

theorem spot_ext {s t : Spot} (hline : d.lineOf s.address = d.lineOf t.address)
    (hcross : d.crossOf s.address = d.crossOf t.address) : s = t := by
  obtain ⟨row, col⟩ := s
  obtain ⟨row', col'⟩ := t
  rw [Spot.mk.injEq]
  unfold lineOf crossOf at *
  cases haxis : d.axis <;> rw [haxis] at hline hcross
  · exact ⟨hline, hcross⟩
  · exact ⟨hcross, hline⟩

/-- A rectangle goes where the cells in it go. -/
structure KeepsSurvivors (d : LineEdit) (limit columns rows : Nat) (r : Rect) : Prop where
  /-- It is lost just if no cell is left. -/
  lost_iff : d.rectImage? limit r = none ↔
    ∀ s : Spot, r.contains s.col s.row = true → d.spotImage? limit s = none
  /-- It goes to a rectangle on the grid. -/
  within : ∀ r', d.rectImage? limit r = some r' →
    (r'.left ≤ r'.right ∧ r'.top ≤ r'.bottom) ∧ r'.isWithin columns rows = true
  /-- The cells that are left are in that. -/
  covers : ∀ r', d.rectImage? limit r = some r' → ∀ s t : Spot, r.contains s.col s.row = true →
    d.spotImage? limit s = some t → r'.contains t.col t.row = true
  /-- Besides them only inserted lines are in it. -/
  covered : ∀ r', d.rectImage? limit r = some r' → ∀ t : Spot, r'.contains t.col t.row = true →
    (∃ s : Spot, r.contains s.col s.row = true ∧ d.spotImage? limit s = some t) ∨ d.IsFresh (d.lineOf t.address)

/-- Cells keep their order along the axis, and stay apart except where lines are held at the last one of all. -/
structure KeepsOrder (d : LineEdit) (limit : Nat) : Prop where
  mono : ∀ s t s' t' : Spot, d.lineOf s.address ≤ limit → d.spotImage? limit s = some s' →
    d.spotImage? limit t = some t' → d.lineOf s.address ≤ d.lineOf t.address →
    d.lineOf s'.address ≤ d.lineOf t'.address
  injective : limit < lastLine ∨ d.change = .deletion → ∀ s t u : Spot, d.spotImage? limit s = some u →
    d.spotImage? limit t = some u → s = t

/-- No two lines get to the same place in a deletion. -/
theorem image?_injective_of_deletion (hdeletes : d.change = .deletion) {line line' n : Nat}
    (h : d.image? limit line = some n) (h' : d.image? limit line' = some n) : line = line' := by
  have hline := eq_of_moved?_of_deletion hdeletes (image?_eq_some.mp h).1
  have hline' := eq_of_moved?_of_deletion hdeletes (image?_eq_some.mp h').1
  omega

theorem keepsOrder (hcount : limit ≤ lastLine) : d.KeepsOrder limit where
  mono := by
    intro s t s' t' hs himage himage' hle
    obtain ⟨hmoved, -⟩ := image?_eq_some.mp (spotImage?_eq_some.mp himage).1
    obtain ⟨hmoved', -⟩ := image?_eq_some.mp (spotImage?_eq_some.mp himage').1
    exact moved?_mono (Nat.le_trans hs hcount) hmoved hmoved' hle
  injective := by
    intro hroom s t u hs ht
    obtain ⟨hline, hcross⟩ := spotImage?_eq_some.mp hs
    obtain ⟨hline', hcross'⟩ := spotImage?_eq_some.mp ht
    refine spot_ext ?_ (hcross.symm.trans hcross')
    rcases hroom with hroom | hdeletes
    · exact image?_injective hroom hline hline'
    · exact image?_injective_of_deletion hdeletes hline hline'

/-! ### Rectangles -/

section Rectangles

variable {columns rows : Nat} {r r' : Rect} (hpos : 1 ≤ d.line) (hlimit : limit = d.along columns rows)
  (hcount : limit ≤ lastLine) (hr : r.isWithin columns rows = true)
include hcount

/-- A cell that is left is in what its rectangle becomes. -/
theorem contains_spotImage? (hfirst : 1 ≤ d.lineOf r.topLeft) (hlast : d.lineOf r.bottomRight ≤ limit)
    (himage : d.rectImage? limit r = some r') {s t : Spot} (hs : r.contains s.col s.row = true)
    (ht : d.spotImage? limit s = some t) : r'.contains t.col t.row = true := by
  obtain ⟨⟨hleft, hright⟩, htop, last, hedge, hbottom, -, -⟩ := rectImage?_spec himage
  obtain ⟨⟨hfrom, hto⟩, hcross⟩ := (contains_iff d r s).mp hs
  obtain ⟨hline, hsame⟩ := spotImage?_eq_some.mp ht
  obtain ⟨hmoved, hwithin⟩ := image?_eq_some.mp hline
  have hcountable : d.lineOf s.address ≤ lastLine := Nat.le_trans (Nat.le_trans hto hlast) hcount
  obtain ⟨edge, hedge', hbefore⟩ := moved?_le_highEdge? (Nat.le_trans hfirst hfrom) hcountable hto hmoved
  obtain rfl : last = edge := Option.some.inj (hedge.symm.trans hedge')
  refine (contains_iff d r' t).mpr ⟨⟨?_, ?_⟩, ?_⟩
  · rw [htop]
    exact lowEdge_le_moved? hcountable hfrom hmoved
  · rw [hbottom]
    exact Nat.le_min.mpr ⟨hbefore, hwithin⟩
  · rw [hleft, hright, hsame]
    exact hcross

/-- A rectangle with a cell that is left becomes something. -/
theorem exists_rectImage?_of_spotImage? (hfirst : 1 ≤ d.lineOf r.topLeft) (hlast : d.lineOf r.bottomRight ≤ limit)
    {s t : Spot} (hs : r.contains s.col s.row = true) (ht : d.spotImage? limit s = some t) :
    ∃ r', d.rectImage? limit r = some r' := by
  obtain ⟨⟨hfrom, hto⟩, -⟩ := (contains_iff d r s).mp hs
  obtain ⟨hmoved, hwithin⟩ := image?_eq_some.mp (spotImage?_eq_some.mp ht).1
  have hcountable : d.lineOf s.address ≤ lastLine := Nat.le_trans (Nat.le_trans hto hlast) hcount
  have hlow := lowEdge_le_moved? hcountable hfrom hmoved
  obtain ⟨edge, hedge, hbefore⟩ := moved?_le_highEdge? (Nat.le_trans hfirst hfrom) hcountable hto hmoved
  exact exists_rectImage? hedge (Nat.le_trans hlow hbefore) (Nat.le_trans hlow hwithin)

omit hcount in
/-- A rectangle that becomes something has a cell that is left. -/
theorem exists_spotImage? (himage : d.rectImage? limit r = some r') :
    ∃ s t : Spot, r.contains s.col s.row = true ∧ d.spotImage? limit s = some t := by
  obtain ⟨-, -, last, hedge, -, hle, hwithin⟩ := rectImage?_spec himage
  obtain ⟨line, hfrom, hto, n, hn⟩ := exists_image? (lineOf_le d r) hedge hle hwithin
  refine ⟨d.spotAt line (d.crossOf r.topLeft), d.spotAt n (d.crossOf r.topLeft), (contains_iff d r _).mpr ?_,
    spotImage?_eq_some.mpr ?_⟩
  · rw [lineOf_spotAt, crossOf_spotAt]
    exact ⟨⟨hfrom, hto⟩, Nat.le_refl _, crossOf_le d r⟩
  · rw [lineOf_spotAt, lineOf_spotAt, crossOf_spotAt, crossOf_spotAt]
    exact ⟨hn, rfl⟩

/-- What a rectangle becomes has the cells that are left of it, and inserted lines. -/
theorem exists_spotImage?_or_isFresh (hlast : d.lineOf r.bottomRight ≤ limit)
    (himage : d.rectImage? limit r = some r') {t : Spot} (ht : r'.contains t.col t.row = true) :
    (∃ s : Spot, r.contains s.col s.row = true ∧ d.spotImage? limit s = some t) ∨ d.IsFresh (d.lineOf t.address) := by
  obtain ⟨⟨hleft, hright⟩, htop, last, hedge, hbottom, -, -⟩ := rectImage?_spec himage
  obtain ⟨⟨hfrom, hto⟩, hcross⟩ := (contains_iff d r' t).mp ht
  rw [htop] at hfrom
  rw [hbottom] at hto
  rw [hleft, hright] at hcross
  refine (exists_image?_or_isFresh (lineOf_le d r) hedge hlast hcount hfrom hto).imp_left ?_
  rintro ⟨line, hfirst, hlast, hline⟩
  refine ⟨d.spotAt line (d.crossOf t.address), (contains_iff d r _).mpr ?_, spotImage?_eq_some.mpr ?_⟩
  · rw [lineOf_spotAt, crossOf_spotAt]
    exact ⟨⟨hfirst, hlast⟩, hcross⟩
  · rw [lineOf_spotAt, crossOf_spotAt]
    exact ⟨hline, rfl⟩

include hpos hlimit hr

omit hcount in
/-- What a rectangle on the grid becomes is on the grid. -/
theorem isWithin_of_rectImage? (himage : d.rectImage? limit r = some r') : r'.isWithin columns rows = true := by
  obtain ⟨⟨hleft, hright⟩, htop, last, -, hbottom, -, -⟩ := rectImage?_spec himage
  obtain ⟨⟨hfirst, -⟩, hcross⟩ := (isWithin_iff d r columns rows).mp hr
  have hlow : 1 ≤ d.lowEdge (d.lineOf r.topLeft) := by
    have hcountable : 1 ≤ lastLine := by decide
    cases hchange : d.change with
    | insertion =>
      have hedge := lowEdge_of_insertion hchange (d.lineOf r.topLeft)
      omega
    | deletion =>
      have hedge := lowEdge_of_deletion hchange (d.lineOf r.topLeft)
      omega
  refine (isWithin_iff d r' columns rows).mpr ⟨⟨?_, ?_⟩, by rwa [hleft, hright]⟩
  · rw [htop]
    exact hlow
  · rw [hbottom, ← hlimit]
    exact Nat.min_le_right _ _

/-- **A rectangle keeps the cells that are left of it**, whatever lines are inserted or deleted. Cells keep their
order, and stay apart on every grid that has fewer lines than can be counted; and no line number is beyond that. -/
theorem keepsSurvivors_of_isWithin :
    d.KeepsSurvivors limit columns rows r ∧ d.KeepsOrder limit ∧ ∀ line ≤ limit, d.StaysCountable line := by
  obtain ⟨⟨hfirst, hlast⟩, -⟩ := (isWithin_iff d r columns rows).mp hr
  rw [← hlimit] at hlast
  refine ⟨⟨?_, ?_, ?_, ?_⟩, keepsOrder hcount, fun line hline => staysCountable (Nat.le_trans hline hcount)⟩
  · constructor
    · intro hlost s hs
      cases ht : d.spotImage? limit s with
      | none => rfl
      | some t =>
        obtain ⟨r', hr'⟩ := exists_rectImage?_of_spotImage? hcount hfirst hlast hs ht
        rw [hlost] at hr'
        cases hr'
    · intro hnone
      cases himage : d.rectImage? limit r with
      | none => rfl
      | some r' =>
        obtain ⟨s, t, hs, ht⟩ := exists_spotImage? himage
        rw [hnone s hs] at ht
        cases ht
  · intro r' himage
    exact ⟨⟨r'.left_le_right, r'.top_le_bottom⟩, isWithin_of_rectImage? hpos hlimit hr himage⟩
  · exact fun r' himage s t hs ht => contains_spotImage? hcount hfirst hlast himage hs ht
  · exact fun r' himage t ht => exists_spotImage?_or_isFresh hcount hlast himage ht

end Rectangles

/-- Three rows are deleted that a rectangle begins in. -/
theorem keepsSurvivors_cutOff :
    let d : LineEdit := ⟨.rows, .deletion, 2, 3⟩
    let r : Rect := ⟨1, 3, 2, 9, by decide, by decide⟩
    r.isWithin 32767 32767 = true ∧ d.KeepsSurvivors 32767 32767 32767 r ∧ d.KeepsOrder 32767 ∧
      d.rectImage? 32767 r = some ⟨1, 2, 2, 6, by decide, by decide⟩ := by
  have hr : Rect.isWithin ⟨1, 3, 2, 9, by decide, by decide⟩ 32767 32767 = true := by decide
  have hlimit : 32767 = LineEdit.along ⟨.rows, .deletion, 2, 3⟩ 32767 32767 := rfl
  obtain ⟨hkeeps, horder, -⟩ := keepsSurvivors_of_isWithin (by decide) hlimit (by decide) hr
  exact ⟨hr, hkeeps, horder, by decide⟩

/-- **Two cells come together** when a row is inserted on a grid that has every row that can be counted: the
cell in the last row is pushed off the grid and stays all the same. -/
theorem not_injective_lastLine :
    let d : LineEdit := ⟨.rows, .insertion, 1, 1⟩
    d.spotImage? lastLine ⟨lastLine - 1, 1⟩ = some ⟨lastLine, 1⟩ ∧
      d.spotImage? lastLine ⟨lastLine, 1⟩ = some ⟨lastLine, 1⟩ := by
  decide

end LineEdit

end Spreadsheet
