import Spreadsheet.Edit.LineEdit
import Spreadsheet.Proofs.Storage

/-!
# Line images: what moves when lines are inserted or deleted

Cells and rectangles are looked at along the axis of an edit and across it. Across nothing changes. Along
the axis:

* what lies before the edited line stays, and nothing else gets there (`positionImage?_of_before`,
  `eq_of_positionImage?`);
* on a grid with room no two cells get to the same place (`positionImage?_injective`), and rectangles that
  share no cell share none afterwards (`intersects_rectImage?`);
* a rectangle has the same cells before the edited line as its image (`contains_rectImage?_iff`), so
  merged regions that are apart hide the same cells there (`hides_images`).

Without room an insertion is held at the last line, where it brings cells together.
-/

namespace Spreadsheet

open Grid

namespace LineEdit

variable {d : LineEdit} {limit : Nat}

/-- The line of an address across the axis. -/
def crossOf (d : LineEdit) (a : Address) : Nat :=
  match d.axis with
  | .rows => a.col
  | .columns => a.row

/-! ### Lines -/

theorem moved?_of_lt {line : Nat} (h : line < d.line) : d.moved? line = some line := if_pos h

theorem moved?_insertion {line : Nat} (hchange : d.change = .insertion) (h : d.line ≤ line) :
    d.moved? line = some (advance line d.count) := by
  unfold moved?
  rw [if_neg (Nat.not_lt.mpr h), hchange]

theorem moved?_deletion {line : Nat} (hchange : d.change = .deletion) (h : d.line ≤ line) :
    d.moved? line = if line - d.line < d.count then none else some (line - d.count) := by
  unfold moved?
  rw [if_neg (Nat.not_lt.mpr h), hchange]

/-- Where an insertion moves a line. -/
theorem eq_of_moved?_of_insertion (hinserts : d.change = .insertion) {line n : Nat} (h : d.moved? line = some n) :
    (line < d.line ∧ n = line) ∨ (d.line ≤ line ∧ n = min (line + d.count) lastLine) := by
  rcases Nat.lt_or_ge line d.line with hlt | hge
  · rw [moved?_of_lt hlt] at h
    exact Or.inl ⟨hlt, (Option.some.inj h).symm⟩
  · rw [moved?_insertion hinserts hge] at h
    exact Or.inr ⟨hge, (Option.some.inj h).symm⟩

/-- Where a deletion moves a line that is left. -/
theorem eq_of_moved?_of_deletion (hdeletes : d.change = .deletion) {line n : Nat} (h : d.moved? line = some n) :
    (line < d.line ∧ n = line) ∨ (d.line + d.count ≤ line ∧ n = line - d.count) := by
  rcases Nat.lt_or_ge line d.line with hlt | hge
  · rw [moved?_of_lt hlt] at h
    exact Or.inl ⟨hlt, (Option.some.inj h).symm⟩
  · rw [moved?_deletion hdeletes hge] at h
    split at h
    · cases h
    · next hleft => exact Or.inr ⟨by omega, (Option.some.inj h).symm⟩

/-- What is behind the edited line stays behind it, if the lines can be counted. -/
theorem line_le_of_moved? {line n : Nat} (hcount : d.line ≤ lastLine) (h : d.line ≤ line)
    (hn : d.moved? line = some n) : d.line ≤ n := by
  cases hchange : d.change with
  | insertion =>
    have hmoved := eq_of_moved?_of_insertion hchange hn
    omega
  | deletion =>
    have hmoved := eq_of_moved?_of_deletion hchange hn
    omega

/-- What is moved can be counted. -/
theorem moved?_le_lastLine {line n : Nat} (hcount : line ≤ lastLine) (h : d.moved? line = some n) : n ≤ lastLine := by
  cases hchange : d.change with
  | insertion =>
    have hmoved := eq_of_moved?_of_insertion hchange h
    omega
  | deletion =>
    have hmoved := eq_of_moved?_of_deletion hchange h
    omega

/-- Lines that can be counted keep their order. -/
theorem moved?_mono {line line' n n' : Nat} (hcount : line ≤ lastLine) (h : d.moved? line = some n)
    (h' : d.moved? line' = some n') (hle : line ≤ line') : n ≤ n' := by
  cases hchange : d.change with
  | insertion =>
    have hmoved := eq_of_moved?_of_insertion hchange h
    have hmoved' := eq_of_moved?_of_insertion hchange h'
    omega
  | deletion =>
    have hmoved := eq_of_moved?_of_deletion hchange h
    have hmoved' := eq_of_moved?_of_deletion hchange h'
    omega

theorem image?_eq_some {line n : Nat} : d.image? limit line = some n ↔ d.moved? line = some n ∧ n ≤ limit := by
  unfold image?
  cases d.moved? line with
  | none => simp
  | some m =>
    dsimp only
    split
    · next hm =>
      rw [Option.some.injEq]
      constructor
      · rintro rfl
        exact ⟨rfl, hm⟩
      · exact And.left
    · next hm =>
      constructor
      · rintro ⟨⟩
      · rintro ⟨hmn, hn⟩
        cases hmn
        exact absurd hn hm

theorem image?_of_lt {line : Nat} (hline : d.line ≤ limit) (h : line < d.line) :
    d.image? limit line = some line :=
  image?_eq_some.mpr ⟨moved?_of_lt h, by omega⟩

theorem eq_of_image?_lt {line n : Nat} (hcount : d.line ≤ lastLine) (h : d.image? limit line = some n)
    (hn : n < d.line) : line = n := by
  obtain ⟨hmoved, -⟩ := image?_eq_some.mp h
  by_cases hline : line < d.line
  · rw [moved?_of_lt hline] at hmoved
    exact Option.some.inj hmoved
  · have hle := line_le_of_moved? hcount (Nat.not_lt.mp hline) hmoved
    omega

/-- On a grid with room no two lines get to the same place. -/
theorem image?_injective {line line' n : Nat} (hroom : limit < lastLine)
    (h : d.image? limit line = some n) (h' : d.image? limit line' = some n) : line = line' := by
  obtain ⟨hmoved, hn⟩ := image?_eq_some.mp h
  obtain ⟨hmoved', -⟩ := image?_eq_some.mp h'
  cases hchange : d.change with
  | insertion =>
    have hline := eq_of_moved?_of_insertion hchange hmoved
    have hline' := eq_of_moved?_of_insertion hchange hmoved'
    omega
  | deletion =>
    have hline := eq_of_moved?_of_deletion hchange hmoved
    have hline' := eq_of_moved?_of_deletion hchange hmoved'
    omega

/-! ### Positions -/

theorem position_ext_iff (d : LineEdit) {p q : Position} :
    p = q ↔ p.sheet = q.sheet ∧ d.lineOf p.address = d.lineOf q.address ∧
      d.crossOf p.address = d.crossOf q.address := by
  obtain ⟨sheet, row, col⟩ := p
  obtain ⟨sheet', row', col'⟩ := q
  rw [Position.mk.injEq]
  unfold lineOf crossOf
  cases d.axis
  · exact Iff.rfl
  · exact and_congr_right fun _ => and_comm

/-- A position moves along the axis, on its own sheet. -/
theorem positionImage?_eq_some {id : SheetId} {p q : Position} :
    d.positionImage? limit id p = some q ↔ q.sheet = p.sheet ∧
      if p.sheet = id then
        d.image? limit (d.lineOf p.address) = some (d.lineOf q.address) ∧
          d.crossOf q.address = d.crossOf p.address
      else q = p := by
  unfold positionImage?
  split
  · next hp =>
    obtain ⟨sheet, row, col⟩ := p
    obtain ⟨sheet', row', col'⟩ := q
    obtain rfl : sheet = id := hp
    unfold spotImage? lineOf crossOf
    cases d.axis with
    | rows =>
      dsimp only
      rw [Option.map_map, Option.map_eq_some_iff]
      constructor
      · rintro ⟨n, hn, heq⟩
        cases heq
        exact ⟨rfl, hn, rfl⟩
      · rintro ⟨hs, hn, hc⟩
        exact ⟨row', hn, by cases hs; cases hc; rfl⟩
    | columns =>
      dsimp only
      rw [Option.map_map, Option.map_eq_some_iff]
      constructor
      · rintro ⟨n, hn, heq⟩
        cases heq
        exact ⟨rfl, hn, rfl⟩
      · rintro ⟨hs, hn, hc⟩
        exact ⟨col', hn, by cases hs; cases hc; rfl⟩
  · rw [Option.some.injEq, eq_comm]
    constructor
    · rintro rfl
      exact ⟨rfl, rfl⟩
    · exact And.right

section Positions

variable {id : SheetId} {p p' q : Position}

/-- What is on another sheet or before the edited line stays. -/
theorem positionImage?_of_before (hline : d.line ≤ limit)
    (h : p.sheet = id → d.lineOf p.address < d.line) : d.positionImage? limit id p = some p := by
  refine positionImage?_eq_some.mpr ⟨rfl, ?_⟩
  split
  · next hp => exact ⟨image?_of_lt hline (h hp), rfl⟩
  · rfl

/-- Nothing gets to where something stays. -/
theorem eq_of_positionImage? (hcount : d.line ≤ lastLine) (h : d.positionImage? limit id p = some q)
    (hq : q.sheet = id → d.lineOf q.address < d.line) : p = q := by
  obtain ⟨hsheet, hrest⟩ := positionImage?_eq_some.mp h
  split at hrest
  · next hp =>
    refine (position_ext_iff d).mpr ⟨hsheet.symm, ?_, hrest.2.symm⟩
    exact eq_of_image?_lt hcount hrest.1 (hq (hsheet.trans hp))
  · exact hrest.symm

/-- On a grid with room no two positions get to the same place. -/
theorem positionImage?_injective (hroom : limit < lastLine) (h : d.positionImage? limit id p = some q)
    (h' : d.positionImage? limit id p' = some q) : p = p' := by
  obtain ⟨hsheet, hrest⟩ := positionImage?_eq_some.mp h
  obtain ⟨hsheet', hrest'⟩ := positionImage?_eq_some.mp h'
  have hsame : p.sheet = p'.sheet := hsheet.symm.trans hsheet'
  by_cases hp : p.sheet = id
  · rw [if_pos hp] at hrest
    rw [if_pos (hsame ▸ hp)] at hrest'
    refine (position_ext_iff d).mpr ⟨hsame, image?_injective hroom hrest.1 hrest'.1, ?_⟩
    rw [← hrest.2, hrest'.2]
  · rw [if_neg hp] at hrest
    rw [if_neg (hsame ▸ hp)] at hrest'
    rw [← hrest, hrest']

end Positions

/-! ### Rectangles -/

section Rectangles

variable {r r' s s' : Rect}

theorem contains_iff (d : LineEdit) (r : Rect) (spot : Spot) : r.contains spot.col spot.row = true ↔
    (d.lineOf r.topLeft ≤ d.lineOf spot.address ∧ d.lineOf spot.address ≤ d.lineOf r.bottomRight) ∧
      d.crossOf r.topLeft ≤ d.crossOf spot.address ∧ d.crossOf spot.address ≤ d.crossOf r.bottomRight := by
  unfold Rect.contains lineOf crossOf
  simp only [Bool.and_eq_true, decide_eq_true_eq]
  cases d.axis
  · rw [and_assoc, and_comm]
    exact Iff.rfl
  · rw [and_assoc]
    exact Iff.rfl

theorem intersects_iff (d : LineEdit) (r s : Rect) : r.intersects s = true ↔
    (d.lineOf r.topLeft ≤ d.lineOf s.bottomRight ∧ d.lineOf s.topLeft ≤ d.lineOf r.bottomRight) ∧
      d.crossOf r.topLeft ≤ d.crossOf s.bottomRight ∧ d.crossOf s.topLeft ≤ d.crossOf r.bottomRight := by
  unfold Rect.intersects lineOf crossOf
  simp only [Bool.and_eq_true, decide_eq_true_eq]
  cases d.axis
  · rw [and_assoc, and_comm]
    exact Iff.rfl
  · rw [and_assoc]
    exact Iff.rfl

theorem lineOf_le (d : LineEdit) (r : Rect) : d.lineOf r.topLeft ≤ d.lineOf r.bottomRight := by
  unfold lineOf
  cases d.axis
  · exact r.top_le_bottom
  · exact r.left_le_right

theorem crossOf_le (d : LineEdit) (r : Rect) : d.crossOf r.topLeft ≤ d.crossOf r.bottomRight := by
  unfold crossOf
  cases d.axis
  · exact r.left_le_right
  · exact r.top_le_bottom

/-- What the image of a rectangle is: across the axis the same, along the axis from where its first line
goes to where its last line goes, cut off at the end of the grid. -/
theorem rectImage?_spec (h : d.rectImage? limit r = some r') :
    (d.crossOf r'.topLeft = d.crossOf r.topLeft ∧ d.crossOf r'.bottomRight = d.crossOf r.bottomRight) ∧
      d.lineOf r'.topLeft = d.lowEdge (d.lineOf r.topLeft) ∧
      ∃ last, d.highEdge? (d.lineOf r.bottomRight) = some last ∧
        d.lineOf r'.bottomRight = min last limit ∧ d.lowEdge (d.lineOf r.topLeft) ≤ last ∧
        d.lowEdge (d.lineOf r.topLeft) ≤ limit := by
  have hfixed : d.isFixed r.topLeft = false ∧ d.isFixed r.bottomRight = false := by
    unfold isFixed
    cases d.axis <;> exact ⟨rfl, rfl⟩
  obtain ⟨⟨a, b⟩, hab, rfl⟩ := Option.map_eq_some_iff.mp h
  unfold rangeImage? at hab
  rw [if_pos (lineOf_le d r)] at hab
  unfold orderedImage? at hab
  rw [hfixed.1, hfixed.2] at hab
  simp only [Bool.false_eq_true, if_false] at hab
  split at hab
  · cases hab
  next last hlast =>
  split at hab
  · next hle =>
    cases hab
    have hrange := r.left_le_right
    have hrange' := r.top_le_bottom
    obtain ⟨hle₁, hle₂⟩ := hle
    unfold withLine lineOf crossOf at *
    cases hd : d.axis <;> simp only [hd] at * <;> refine ⟨⟨?_, ?_⟩, ?_, last, hlast, ?_, hle₁, hle₂⟩ <;>
      simp only [Rect.ofCorners, Rect.span, Rect.topLeft, Rect.bottomRight, Address.plain] at * <;> omega
  · cases hab

/-- When a rectangle has an image. -/
theorem exists_rectImage? {last : Nat} (hlast : d.highEdge? (d.lineOf r.bottomRight) = some last)
    (hle : d.lowEdge (d.lineOf r.topLeft) ≤ last) (hlimit : d.lowEdge (d.lineOf r.topLeft) ≤ limit) :
    ∃ r', d.rectImage? limit r = some r' := by
  have hfixed : d.isFixed r.topLeft = false ∧ d.isFixed r.bottomRight = false := by
    unfold isFixed
    cases d.axis <;> exact ⟨rfl, rfl⟩
  unfold rectImage? rangeImage?
  rw [if_pos (lineOf_le d r)]
  unfold orderedImage?
  rw [hfixed.1, hfixed.2]
  simp only [Bool.false_eq_true, if_false]
  rw [hlast]
  dsimp only
  rw [if_pos ⟨hle, hlimit⟩]
  exact ⟨_, rfl⟩

/-- A range starts behind a line before the edited one exactly if its image does. -/
theorem lowEdge_le_iff (hcount : d.line ≤ lastLine) {n : Nat} (hn : n < d.line) (line : Nat) :
    d.lowEdge line ≤ n ↔ line ≤ n := by
  unfold lowEdge
  by_cases hline : line < d.line
  · rw [moved?_of_lt hline, Option.getD_some]
  · have hbehind := Nat.not_lt.mp hline
    cases hmoved : d.moved? line with
    | none =>
      rw [Option.getD_none]
      omega
    | some m =>
      have hle := line_le_of_moved? hcount hbehind hmoved
      rw [Option.getD_some]
      omega

/-- A range ends before a line before the edited one exactly if its image does. -/
theorem le_highEdge?_iff (hcount : d.line ≤ lastLine) {n : Nat} (hpos : 1 ≤ n) (hn : n < d.line)
    (line : Nat) : (∃ last, d.highEdge? line = some last ∧ n ≤ last) ↔ n ≤ line := by
  unfold highEdge?
  by_cases hline : line < d.line
  · rw [moved?_of_lt hline]
    exact ⟨fun ⟨last, hlast, hle⟩ => Option.some.inj hlast ▸ hle, fun hle => ⟨line, rfl, hle⟩⟩
  · have hbehind := Nat.not_lt.mp hline
    refine iff_of_true ?_ (by omega)
    cases hmoved : d.moved? line with
    | none => exact ⟨d.line - 1, if_pos (by omega), by omega⟩
    | some m =>
      have hle := line_le_of_moved? hcount hbehind hmoved
      exact ⟨m, rfl, by omega⟩

section Before

variable {spot : Spot}

/-- Before the edited line a rectangle has the cells of its image. -/
theorem contains_of_rectImage? (hline : d.line ≤ limit) (hcount : d.line ≤ lastLine)
    (hpos : 1 ≤ d.lineOf spot.address) (hspot : d.lineOf spot.address < d.line)
    (hr : d.rectImage? limit r = some r') (h : r'.contains spot.col spot.row = true) :
    r.contains spot.col spot.row = true := by
  have hlow := lowEdge_le_iff hcount hspot (d.lineOf r.topLeft)
  have hhigh := le_highEdge?_iff hcount hpos hspot (d.lineOf r.bottomRight)
  obtain ⟨⟨hleft, hright⟩, htop, last, hedge, hbottom, -, -⟩ := rectImage?_spec hr
  obtain ⟨⟨hfirst, hlast⟩, hcross⟩ := (contains_iff d _ _).mp h
  rw [htop] at hfirst
  rw [hbottom] at hlast
  rw [hleft, hright] at hcross
  exact (contains_iff d _ _).mpr ⟨⟨hlow.mp hfirst, hhigh.mp ⟨last, hedge, by omega⟩⟩, hcross⟩

/-- Before the edited line the image of a rectangle has the cells of the rectangle, and starts where the
rectangle starts. -/
theorem exists_rectImage?_of_contains (hline : d.line ≤ limit) (hcount : d.line ≤ lastLine)
    (hpos : 1 ≤ d.lineOf spot.address) (hspot : d.lineOf spot.address < d.line)
    (h : r.contains spot.col spot.row = true) :
    ∃ r', d.rectImage? limit r = some r' ∧ r'.contains spot.col spot.row = true ∧
      d.lineOf r'.topLeft = d.lineOf r.topLeft ∧ d.crossOf r'.topLeft = d.crossOf r.topLeft := by
  have hlow := lowEdge_le_iff hcount hspot (d.lineOf r.topLeft)
  have hhigh := le_highEdge?_iff hcount hpos hspot (d.lineOf r.bottomRight)
  obtain ⟨⟨hfirst, hlast⟩, hcross⟩ := (contains_iff d _ _).mp h
  obtain ⟨last, hedge, hle⟩ := hhigh.mpr hlast
  have hfirst' := hlow.mpr hfirst
  have hlimit : d.lowEdge (d.lineOf r.topLeft) ≤ limit := by omega
  obtain ⟨r', hr'⟩ := exists_rectImage? hedge (by omega) hlimit
  obtain ⟨⟨hleft, hright⟩, htop, last', hedge', hbottom, -, -⟩ := rectImage?_spec hr'
  rw [hedge] at hedge'
  cases hedge'
  refine ⟨r', hr', (contains_iff d _ _).mpr ⟨⟨?_, ?_⟩, ?_⟩, ?_, hleft⟩
  · rw [htop]
    exact hfirst'
  · rw [hbottom]
    omega
  · rw [hleft, hright]
    exact hcross
  · rw [htop]
    unfold lowEdge
    rw [moved?_of_lt (by omega), Option.getD_some]

end Before

/-- On a grid with room, the lines that ranges before and behind each other go to stay so. -/
theorem highEdge?_lt_lowEdge (hcount : d.line ≤ lastLine) (hroom : limit < lastLine) {line line' last : Nat}
    (h : line < line') (hlast : d.highEdge? line = some last) (hfirst : d.lowEdge line' ≤ limit) :
    last < d.lowEdge line' := by
  have hlow : d.line ≤ line' → d.line ≤ d.lowEdge line' := by
    intro hbehind
    rcases Nat.lt_or_ge (d.lowEdge line') d.line with hlt | hle
    · exact absurd ((lowEdge_le_iff hcount hlt line').mp (Nat.le_refl _)) (by omega)
    · exact hle
  unfold highEdge? at hlast
  by_cases hline : line < d.line
  · rw [moved?_of_lt hline] at hlast
    cases hlast
    by_cases hline' : line' < d.line
    · unfold lowEdge
      rw [moved?_of_lt hline']
      exact h
    · have hle := hlow (Nat.not_lt.mp hline')
      omega
  · have hline := Nat.not_lt.mp hline
    have hle := hlow (by omega)
    cases hchange : d.change with
    | insertion =>
      unfold lowEdge at hfirst ⊢
      rw [moved?_insertion hchange hline] at hlast
      rw [moved?_insertion hchange (by omega), Option.getD_some] at *
      cases hlast
      unfold advance at hfirst ⊢
      omega
    | deletion =>
      rw [moved?_deletion hchange hline] at hlast
      by_cases hgone : line - d.line < d.count
      · rw [if_pos hgone] at hlast
        dsimp only at hlast
        split at hlast
        · cases hlast
          omega
        · cases hlast
      · rw [if_neg hgone] at hlast
        cases hlast
        unfold lowEdge
        rw [moved?_deletion hchange (by omega), if_neg (by omega), Option.getD_some]
        omega

/-- On a grid with room, rectangles that share no cell share none after lines are edited. -/
theorem intersects_rectImage? (hcount : d.line ≤ lastLine) (hroom : limit < lastLine)
    (h : r.intersects s = false) (hr : d.rectImage? limit r = some r') (hs : d.rectImage? limit s = some s') :
    r'.intersects s' = false := by
  obtain ⟨⟨hleft, hright⟩, htop, last, hlast, hbottom, hle, hlimit⟩ := rectImage?_spec hr
  obtain ⟨⟨hleft', hright'⟩, htop', last', hlast', hbottom', hle', hlimit'⟩ := rectImage?_spec hs
  rw [Bool.eq_false_iff, Ne, intersects_iff d] at h ⊢
  rw [htop, hbottom, htop', hbottom', hleft, hright, hleft', hright']
  rintro ⟨⟨hbefore, hbehind⟩, hcross⟩
  refine h ⟨⟨?_, ?_⟩, hcross⟩
  · rcases Nat.lt_or_ge (d.lineOf s.bottomRight) (d.lineOf r.topLeft) with hlt | hge
    · have hgap := highEdge?_lt_lowEdge hcount hroom hlt hlast' hlimit
      omega
    · exact hge
  · rcases Nat.lt_or_ge (d.lineOf r.bottomRight) (d.lineOf s.topLeft) with hlt | hge
    · have hgap := highEdge?_lt_lowEdge hcount hroom hlt hlast hlimit'
      omega
    · exact hge

/-! ### The grid -/

/-- The size of a grid along the axis of an edit. -/
def along (d : LineEdit) (columns rows : Nat) : Nat :=
  match d.axis with
  | .rows => rows
  | .columns => columns

/-- The size of a grid across the axis of an edit. -/
def across (d : LineEdit) (columns rows : Nat) : Nat :=
  match d.axis with
  | .rows => columns
  | .columns => rows

theorem isWithin_iff (d : LineEdit) (r : Rect) (columns rows : Nat) : r.isWithin columns rows = true ↔
    (1 ≤ d.lineOf r.topLeft ∧ d.lineOf r.bottomRight ≤ d.along columns rows) ∧
      1 ≤ d.crossOf r.topLeft ∧ d.crossOf r.bottomRight ≤ d.across columns rows := by
  have hrange := r.left_le_right
  have hrange' := r.top_le_bottom
  unfold Rect.isWithin Address.isWithin lineOf crossOf along across
  simp only [Bool.and_eq_true, decide_eq_true_eq]
  cases d.axis <;> dsimp only [Rect.topLeft, Rect.bottomRight, Address.plain] <;> omega

/-- The image of a rectangle on the grid is on the grid. -/
theorem isWithin_rectImage? {columns rows : Nat} (hpos : 1 ≤ d.line) (hcount : d.line ≤ lastLine)
    (h : r.isWithin columns rows = true) (hr : d.rectImage? (d.along columns rows) r = some r') :
    r'.isWithin columns rows = true := by
  obtain ⟨⟨hleft, hright⟩, htop, last, -, hbottom, -, -⟩ := rectImage?_spec hr
  obtain ⟨⟨hfirst, -⟩, hcross⟩ := (isWithin_iff d _ _ _).mp h
  refine (isWithin_iff d _ _ _).mpr ⟨⟨?_, ?_⟩, by rwa [hleft, hright]⟩
  · rw [htop]
    have hlow := lowEdge_le_iff hcount (n := 0) (by omega) (d.lineOf r.topLeft)
    omega
  · rw [hbottom]
    exact Nat.min_le_right _ _

/-- A rectangle on the grid that shares no cell with the lines that move lies before them. -/
theorem before_of_not_intersects {columns rows : Nat} (h : r.isWithin columns rows = true)
    (hline : d.line ≤ d.along columns rows) (hfree : r.intersects (d.affected columns rows) = false) :
    d.lineOf r.bottomRight < d.line := by
  have hrange := lineOf_le d r
  have hrange' := crossOf_le d r
  obtain ⟨⟨hfirst, hlast⟩, hcross⟩ := (isWithin_iff d _ _ _).mp h
  rw [Bool.eq_false_iff, Ne, intersects_iff d] at hfree
  unfold affected along across lineOf crossOf at *
  cases hd : d.axis <;> simp only [hd, Rect.span, Rect.topLeft, Rect.bottomRight, Address.plain] at * <;> omega

end Rectangles

/-! ### Merged regions -/

section Merges

variable {merges : List Rect}

/-- A spot where a rectangle starts. -/
theorem start_iff (d : LineEdit) (r : Rect) (spot : Spot) :
    (r.left == spot.col && r.top == spot.row) = true ↔
      d.lineOf r.topLeft = d.lineOf spot.address ∧ d.crossOf r.topLeft = d.crossOf spot.address := by
  rw [Bool.and_eq_true, beq_iff_eq, beq_iff_eq]
  unfold lineOf crossOf
  cases d.axis
  · exact and_comm
  · exact Iff.rfl

/-- The images of regions that are apart are apart, on a grid with room. -/
theorem mergesApart_images (hcount : d.line ≤ lastLine) (hroom : limit < lastLine)
    (hapart : MergesApart merges) :
    MergesApart ((merges.filterMap (d.rectImage? limit)).filter fun m => !m.isSingle) := by
  refine List.Pairwise.filter _ (List.Pairwise.filterMap _ (fun m n hfree m' hm n' hn => ?_) hapart)
  exact intersects_rectImage? hcount hroom hfree hm hn

/-- **Before the edited line, regions that are apart hide the same cells as their images.** -/
theorem hides_images (hline : d.line ≤ limit) (hroom : limit < lastLine) (hapart : MergesApart merges)
    {spot : Spot} (hpos : 1 ≤ d.lineOf spot.address) (hspot : d.lineOf spot.address < d.line) :
    Workbook.hides ((merges.filterMap (d.rectImage? limit)).filter fun m => !m.isSingle) spot =
      Workbook.hides merges spot := by
  have hcount : d.line ≤ lastLine := by omega
  rw [Bool.eq_iff_iff, Workbook.hides_iff (mergesApart_images hcount hroom hapart),
    Workbook.hides_iff hapart]
  have hstart : ∀ {m m' : Rect}, d.lineOf m'.topLeft = d.lineOf m.topLeft →
      d.crossOf m'.topLeft = d.crossOf m.topLeft →
      (m'.left == spot.col && m'.top == spot.row) = (m.left == spot.col && m.top == spot.row) := by
    intro m m' hline hcross
    rw [Bool.eq_iff_iff, start_iff d, start_iff d, hline, hcross]
  constructor
  · rintro ⟨m', hm', hcontains', hnot⟩
    obtain ⟨m, hm, himage⟩ := List.mem_filterMap.mp (List.mem_filter.mp hm').1
    have hcontains := contains_of_rectImage? hline hcount hpos hspot himage hcontains'
    obtain ⟨m'', himage', -, hsame, hcross⟩ := exists_rectImage?_of_contains hline hcount hpos hspot hcontains
    rw [himage] at himage'
    cases himage'
    exact ⟨m, hm, hcontains, hstart hsame hcross ▸ hnot⟩
  · rintro ⟨m, hm, hcontains, hnot⟩
    obtain ⟨m', himage, hcontains', hsame, hcross⟩ :=
      exists_rectImage?_of_contains hline hcount hpos hspot hcontains
    rw [← hstart hsame hcross] at hnot
    refine ⟨m', List.mem_filter.mpr ⟨List.mem_filterMap.mpr ⟨m, hm, himage⟩, ?_⟩, hcontains', hnot⟩
    -- A region of one cell would start there.
    rw [Bool.not_eq_true', Bool.eq_false_iff]
    intro hsingle
    unfold Rect.isSingle at hsingle
    unfold Rect.contains at hcontains'
    simp only [Bool.and_eq_true, decide_eq_true_eq, beq_iff_eq] at hsingle hcontains'
    rw [Bool.eq_false_iff] at hnot
    refine hnot (Bool.and_eq_true_iff.mpr ⟨beq_iff_eq.mpr ?_, beq_iff_eq.mpr ?_⟩) <;> omega

end Merges

end LineEdit

end Spreadsheet
