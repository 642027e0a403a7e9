import Spreadsheet.Proofs.Naming
import Spreadsheet.Proofs.Retargeting
import Spreadsheet.Proofs.Shifting

/-!
# Adjusting: references when lines are inserted and deleted

A reference in a text is adjusted corner by corner, an area on the grid as a rectangle. The two agree unless a
corner is fixed on the axis of the edit:

* `LineEdit.resolve_adjusted` — an adjusted reference means the image of what the reference meant, on the
  edited sheet, on others, and by name;
* `LineEdit.writes_adjusted` — the new text of a reference is that of the adjusted reference.
-/

namespace Spreadsheet

open Grid

namespace LineEdit

variable {d : LineEdit} {limit : Nat}

/-- What a reference becomes; none if its cells are gone. -/
def referenceImage? (d : LineEdit) (limit : Nat) : Reference → Option Reference
  | .cell sheet a => (d.addressImage? limit a).map (.cell sheet)
  | .range sheet a b => (d.rangeImage? limit a b).map fun (a, b) => .range sheet a b
  | .name n => some (.name n)

/-- A reference in a formula on the sheet `home`, after lines were edited on a sheet with a handle and a name.
One whose cells are gone is left as it is here. -/
def adjusted (d : LineEdit) (limit : Nat) (home id : SheetId) (name : String) (r : Reference) : Reference :=
  if r.refersTo home id name then (d.referenceImage? limit r).getD r else r

/-- Whether no corner of a reference is fixed on the axis. -/
def isFree (d : LineEdit) : Reference → Bool
  | .cell _ a => !d.isFixed a
  | .range _ a b => !d.isFixed a && !d.isFixed b
  | .name _ => true

/-- Where the cells go that are read as one area: a single cell goes where it is stored, and a rectangle where
a merged region or a named area goes. -/
def areaImage? (d : LineEdit) (limit : Nat) (id : SheetId) : Area → Option Area
  | .point p => (d.positionImage? limit id p).map .point
  | .range sheet rect =>
    if sheet = id then (d.rectImage? limit rect).map (.range sheet) else some (.range sheet rect)

/-! ### Addresses along the axis -/

theorem lineOf_withLine (d : LineEdit) (a : Address) (line : Nat) : d.lineOf (d.withLine a line) = line := by
  unfold lineOf withLine
  cases d.axis <;> rfl

theorem crossOf_withLine (d : LineEdit) (a : Address) (line : Nat) :
    d.crossOf (d.withLine a line) = d.crossOf a := by
  unfold crossOf withLine
  cases d.axis <;> rfl

theorem isWithin_address_iff (d : LineEdit) (a : Address) (columns rows : Nat) :
    a.isWithin columns rows = true ↔
      (1 ≤ d.lineOf a ∧ d.lineOf a ≤ d.along columns rows) ∧
        1 ≤ d.crossOf a ∧ d.crossOf a ≤ d.across columns rows := by
  unfold Address.isWithin lineOf crossOf along across
  simp only [Bool.and_eq_true, decide_eq_true_eq]
  cases d.axis <;> dsimp only <;> omega

/-- An address stays on the grid if its line does. -/
theorem isWithin_withLine {a : Address} {columns rows line : Nat} (h : a.isWithin columns rows = true)
    (hpos : 1 ≤ line) (hline : line ≤ d.along columns rows) :
    (d.withLine a line).isWithin columns rows = true := by
  rw [isWithin_address_iff d] at h ⊢
  rw [lineOf_withLine, crossOf_withLine]
  exact ⟨⟨hpos, hline⟩, h.2⟩

theorem one_le_of_moved? {line n : Nat} (hpos : 1 ≤ d.line) (h : 1 ≤ line) (hn : d.moved? line = some n) :
    1 ≤ n := by
  unfold moved? at hn
  split at hn
  · cases hn
    exact h
  · split at hn
    · cases hn
      have hlast : 1 ≤ lastLine := by decide
      unfold advance
      omega
    · split at hn
      · cases hn
      · cases hn
        omega

theorem one_le_lowEdge {line : Nat} (hpos : 1 ≤ d.line) (h : 1 ≤ line) : 1 ≤ d.lowEdge line := by
  unfold lowEdge
  cases hmoved : d.moved? line with
  | none => exact hpos
  | some n => exact one_le_of_moved? hpos h hmoved

theorem along_lastLine (d : LineEdit) : d.along lastLine lastLine = lastLine := by
  unfold along
  cases d.axis <;> rfl

/-! ### Images on the grid -/

section Within

variable {columns rows : Nat} (hpos : 1 ≤ d.line) (hlimit : limit ≤ d.along columns rows)
include hpos hlimit

/-- The image of an address on the grid is on the grid. -/
theorem isWithin_addressImage? {a a' : Address} (h : a.isWithin columns rows = true)
    (ha : d.addressImage? limit a = some a') : a'.isWithin columns rows = true := by
  unfold addressImage? at ha
  split at ha
  · cases ha
    exact h
  · obtain ⟨n, hn, rfl⟩ := Option.map_eq_some_iff.mp ha
    obtain ⟨hmoved, hn⟩ := image?_eq_some.mp hn
    obtain ⟨⟨hline, -⟩, -⟩ := (isWithin_address_iff d _ _ _).mp h
    exact isWithin_withLine h (one_le_of_moved? hpos hline hmoved) (hn.trans hlimit)

theorem isWithin_orderedImage? {low high a b : Address} (hlow : low.isWithin columns rows = true)
    (hhigh : high.isWithin columns rows = true) (h : d.orderedImage? limit low high = some (a, b)) :
    a.isWithin columns rows = true ∧ b.isWithin columns rows = true := by
  obtain ⟨⟨hline, -⟩, -⟩ := (isWithin_address_iff d _ _ _).mp hlow
  have hfirst : 1 ≤ if d.isFixed low then d.lineOf low else d.lowEdge (d.lineOf low) := by
    split
    · exact hline
    · exact one_le_lowEdge hpos hline
  unfold orderedImage? at h
  dsimp only at h
  generalize (if d.isFixed low then d.lineOf low else d.lowEdge (d.lineOf low)) = first at h hfirst
  generalize (if d.isFixed high then some (d.lineOf high) else d.highEdge? (d.lineOf high)) = edge at h
  cases edge with
  | none => cases h
  | some last =>
    dsimp only at h
    split at h
    · next hle =>
      cases h
      have hbottom : first ≤ min last limit ∧ min last limit ≤ limit := by omega
      exact ⟨isWithin_withLine hlow hfirst (hle.2.trans hlimit),
        isWithin_withLine hhigh (hfirst.trans hbottom.1) (hbottom.2.trans hlimit)⟩
    · cases h

/-- So are the corners of what a range becomes. -/
theorem isWithin_rangeImage? {a b a' b' : Address} (ha : a.isWithin columns rows = true)
    (hb : b.isWithin columns rows = true) (h : d.rangeImage? limit a b = some (a', b')) :
    a'.isWithin columns rows = true ∧ b'.isWithin columns rows = true := by
  unfold rangeImage? at h
  split at h
  · exact isWithin_orderedImage? hpos hlimit ha hb h
  · exact isWithin_orderedImage? hpos hlimit hb ha h

end Within

/-- What a reference becomes can be written, and gives its cells by position if the reference does. -/
theorem isWritable_referenceImage? (hpos : 1 ≤ d.line) (hlimit : limit ≤ lastLine) {r r' : Reference}
    (h : r.IsWritable) (hr : d.referenceImage? limit r = some r') :
    r'.IsWritable ∧ r'.isPositional = r.isPositional := by
  have hlimit : limit ≤ d.along lastLine lastLine := by rwa [along_lastLine]
  cases r with
  | cell sheet a =>
    obtain ⟨a', ha, rfl⟩ := Option.map_eq_some_iff.mp hr
    exact ⟨⟨h.1, isWithin_addressImage? hpos hlimit h.2 ha⟩, rfl⟩
  | range sheet a b =>
    obtain ⟨⟨a', b'⟩, hab, rfl⟩ := Option.map_eq_some_iff.mp hr
    exact ⟨⟨h.1, isWithin_rangeImage? hpos hlimit h.2.1 h.2.2 hab⟩, rfl⟩
  | name n =>
    cases hr
    exact ⟨h, rfl⟩

/-! ### The texts of references -/

/-- The new text of a reference is the mark of a lost one, or that of what it becomes. -/
theorem newText?_eq (r : Reference) : d.newText? limit r =
    match d.referenceImage? limit r with
    | none => some lostReference
    | some new => if new = r then none else some new.text := by
  cases r <;> rfl

/-- The new texts that an edit of lines on a sheet gives to references in a formula. -/
def rewrite (d : LineEdit) (limit : Nat) (home id : SheetId) (name : String) (r : Reference) : Option String :=
  if r.refersTo home id name then d.newText? limit r else none

section Texts

variable {home id : SheetId} {name : String} {r : Reference} (hpos : 1 ≤ d.line) (hlimit : limit ≤ lastLine)
include hpos hlimit

theorem answersReferences_rewrite : AnswersReferences (d.rewrite limit home id name) := by
  intro r hpositional hwritable text htext
  unfold rewrite at htext
  split at htext
  · rw [newText?_eq] at htext
    split at htext
    · cases htext
      exact Or.inl rfl
    · next new hnew =>
      split at htext
      · cases htext
      · cases htext
        obtain ⟨hnew', hsame⟩ := isWritable_referenceImage? hpos hlimit hwritable hnew
        exact Or.inr ⟨new, hsame.trans hpositional, hnew', rfl⟩
  · cases htext

/-- **The new texts of references are those of the adjusted references**, if no cells are gone. -/
theorem writes_adjusted (h : r.IsWritable)
    (himage : r.refersTo home id name = true → (d.referenceImage? limit r).isSome = true) :
    Expr.Writes (d.rewrite limit home id name) (d.adjusted limit home id name) r := by
  unfold Expr.Writes rewrite adjusted
  split
  · next hrefers =>
    obtain ⟨new, hnew⟩ := Option.isSome_iff_exists.mp (himage hrefers)
    obtain ⟨hwritable, hsame⟩ := isWritable_referenceImage? hpos hlimit h hnew
    rw [newText?_eq, hnew]
    dsimp only [Option.getD_some]
    by_cases heq : new = r
    · exact Or.inl ⟨fun _ => if_pos heq, heq⟩
    · rw [if_neg heq]
      refine Or.inr ⟨?_, rfl, hwritable⟩
      -- A name becomes itself.
      cases r with
      | cell _ _ => rfl
      | range _ _ _ => rfl
      | name n => exact absurd (Option.some.inj hnew).symm heq
  · exact Or.inl ⟨fun _ => rfl, rfl⟩

end Texts

/-! ### Free references and areas -/

/-- A cell goes where a free reference to it goes. -/
theorem positionImage?_ofAddress {a : Address} (h : d.isFixed a = false) (id : SheetId) :
    d.positionImage? limit id (.ofAddress id a) = (d.addressImage? limit a).map (.ofAddress id) := by
  unfold positionImage? addressImage?
  rw [if_pos (show (Position.ofAddress id a).sheet = id from rfl), h, if_neg Bool.false_ne_true, Option.map_map]
  unfold spotImage? lineOf withLine
  cases d.axis
  · exact Option.map_map _ _ _
  · exact Option.map_map _ _ _

/-- What becomes of a range without fixed corners depends on its lines only. -/
theorem orderedImage?_of_free {low high : Address} (hlow : d.isFixed low = false) (hhigh : d.isFixed high = false) :
    d.orderedImage? limit low high = (d.highEdge? (d.lineOf high)).bind fun last =>
      if d.lowEdge (d.lineOf low) ≤ last ∧ d.lowEdge (d.lineOf low) ≤ limit then
        some (d.withLine low (d.lowEdge (d.lineOf low)), d.withLine high (min last limit))
      else none := by
  unfold orderedImage?
  rw [hlow, hhigh, if_neg Bool.false_ne_true, if_neg Bool.false_ne_true]
  cases d.highEdge? (d.lineOf high) <;> rfl

/-- Corners span the same rectangle if they have the same outermost lines. -/
theorem span_eq_span {col₁ row₁ col₂ row₂ col₁' row₁' col₂' row₂' : Nat}
    (hcols : min col₁ col₂ = min col₁' col₂' ∧ max col₁ col₂ = max col₁' col₂')
    (hrows : min row₁ row₂ = min row₁' row₂' ∧ max row₁ row₂ = max row₁' row₂') :
    Rect.span col₁ row₁ col₂ row₂ = Rect.span col₁' row₁' col₂' row₂' := by
  unfold Rect.span
  rw [Rect.mk.injEq]
  exact ⟨hcols.1, hrows.1, hcols.2, hrows.2⟩

theorem ofCorners_comm (a b : Address) : Rect.ofCorners a b = Rect.ofCorners b a :=
  span_eq_span ⟨Nat.min_comm _ _, Nat.max_comm _ _⟩ ⟨Nat.min_comm _ _, Nat.max_comm _ _⟩

/-- Corners moved along the axis span the same across it as the corners of their rectangle. -/
theorem ofCorners_withLine (d : LineEdit) (a b : Address) (m n : Nat) :
    Rect.ofCorners (d.withLine (Rect.ofCorners a b).topLeft m) (d.withLine (Rect.ofCorners a b).bottomRight n) =
      Rect.ofCorners (d.withLine a m) (d.withLine b n) := by
  have hcols : min (min a.col b.col) (max a.col b.col) = min a.col b.col ∧
      max (min a.col b.col) (max a.col b.col) = max a.col b.col := by
    omega
  have hrows : min (min a.row b.row) (max a.row b.row) = min a.row b.row ∧
      max (min a.row b.row) (max a.row b.row) = max a.row b.row := by
    omega
  unfold withLine
  cases d.axis
  · exact span_eq_span hcols ⟨rfl, rfl⟩
  · exact span_eq_span ⟨rfl, rfl⟩ hrows

/-- What an ordered range becomes spans what its rectangle becomes. -/
theorem rectImage?_ofCorners_of_le {a b : Address} (ha : d.isFixed a = false) (hb : d.isFixed b = false)
    (h : d.lineOf a ≤ d.lineOf b) :
    d.rectImage? limit (Rect.ofCorners a b) =
      (d.orderedImage? limit a b).map fun (a, b) => Rect.ofCorners a b := by
  have hfree : d.isFixed (Rect.ofCorners a b).topLeft = false ∧ d.isFixed (Rect.ofCorners a b).bottomRight = false := by
    unfold isFixed
    cases d.axis <;> exact ⟨rfl, rfl⟩
  have hlines : d.lineOf (Rect.ofCorners a b).topLeft = d.lineOf a ∧
      d.lineOf (Rect.ofCorners a b).bottomRight = d.lineOf b := by
    unfold lineOf at h ⊢
    cases hd : d.axis <;> simp only [hd] at h ⊢ <;> exact ⟨Nat.min_eq_left h, Nat.max_eq_right h⟩
  unfold rectImage? rangeImage?
  rw [if_pos (lineOf_le d _), orderedImage?_of_free hfree.1 hfree.2, orderedImage?_of_free ha hb, hlines.1, hlines.2]
  cases d.highEdge? (d.lineOf b) with
  | none => rfl
  | some last =>
    dsimp only [Option.bind_some]
    split
    · exact congrArg some (ofCorners_withLine d a b _ _)
    · rfl

/-- A range goes where a reference to it goes that has no fixed corner, in whatever order its corners are
given. -/
theorem rectImage?_ofCorners {a b : Address} (ha : d.isFixed a = false) (hb : d.isFixed b = false) :
    d.rectImage? limit (Rect.ofCorners a b) =
      (d.rangeImage? limit a b).map fun (a, b) => Rect.ofCorners a b := by
  unfold rangeImage?
  split
  · next hle => exact rectImage?_ofCorners_of_le ha hb hle
  · next hlt =>
    rw [ofCorners_comm]
    exact rectImage?_ofCorners_of_le hb ha (by omega)

end LineEdit

/-! ### What adjusted references mean -/

namespace Engine

section Meaning

variable {e : Engine} {id : SheetId} {d : LineEdit} {s : Sheet} {home : SheetId}

/-- The qualifier of a reference refers to a sheet if it means this sheet. -/
theorem refersTo_iff (hw : e.workbook.WellFormed) (hdistinct : e.workbook.NamesDistinct)
    (hs : e.workbook.sheet? id = some s) {r : Reference} {found : SheetId}
    (hfound : e.scope.qualified? home r.sheet? = some found) :
    r.refersTo home id s.name = true ↔ found = id := by
  unfold Reference.refersTo
  cases hsheet : r.sheet? with
  | none =>
    rw [hsheet] at hfound
    obtain rfl : home = found := Option.some.inj hfound
    exact beq_iff_eq
  | some qualifier =>
    rw [hsheet] at hfound
    have hfound : e.workbook.sheetId? qualifier = some found := hfound
    dsimp only
    constructor
    · intro hsame
      have hnamed : e.workbook.IsNamed id qualifier := ⟨s, hs, Text.sameName_symm hsame⟩
      rw [Workbook.sheetId?_of_isNamed hw hdistinct hnamed] at hfound
      exact (Option.some.inj hfound).symm
    · rintro rfl
      obtain ⟨⟨s', hs', hname⟩, -⟩ := Workbook.sheetId?_eq_some.mp hfound
      rw [hs] at hs'
      cases hs'
      exact Text.sameName_symm hname

section Resolved

variable (h : e.Consistent) (hd : e.IsEditable d) (hdistinct : e.workbook.NamesDistinct)
  (hs : e.workbook.sheet? id = some s)
include h hd hdistinct hs

/-- An adjusted reference to a cell means the image of that cell. -/
theorem resolve_adjusted_cell {qualifier : Option String} {address : Address} {found : SheetId} {a' : Area}
    (hfound : e.scope.qualified? home qualifier = some found)
    (hin : address.isWithin e.settings.columns e.settings.rows = true)
    (hfree : (Reference.cell qualifier address).refersTo home id s.name = true →
      d.isFree (.cell qualifier address) = true)
    (himage : d.areaImage? (e.limit d.axis) id (.point (Position.ofAddress found address)) = some a') :
    ((Reference.cell qualifier address).refersTo home id s.name = true →
        (d.referenceImage? (e.limit d.axis) (.cell qualifier address)).isSome = true) ∧
      (e.workbook.scope (e.movedNames id d) e.settings).resolve
        (d.adjusted (e.limit d.axis) home id s.name (.cell qualifier address)) home = .ok a' := by
  have hrefers : (Reference.cell qualifier address).refersTo home id s.name = true ↔ found = id :=
    refersTo_iff h.wellFormed hdistinct hs hfound
  unfold LineEdit.adjusted
  by_cases hsheet : found = id
  · subst hsheet
    have hunfixed : d.isFixed address = false := (Bool.not_eq_true' _).mp (hfree (hrefers.mpr rfl))
    unfold LineEdit.areaImage? at himage
    dsimp only at himage
    rw [LineEdit.positionImage?_ofAddress hunfixed] at himage
    obtain ⟨_, hmoved, rfl⟩ := Option.map_eq_some_iff.mp himage
    obtain ⟨address', haddress, rfl⟩ := Option.map_eq_some_iff.mp hmoved
    have hnew : d.referenceImage? (e.limit d.axis) (.cell qualifier address) = some (.cell qualifier address') :=
      congrArg (Option.map _) haddress
    have hin' : address'.isWithin e.settings.columns e.settings.rows = true :=
      LineEdit.isWithin_addressImage? hd.pos (IsEditable.limit_eq_along e d).le hin haddress
    rw [if_pos (hrefers.mpr rfl), hnew]
    exact ⟨fun _ => rfl, Scope.resolve_cell.mpr ⟨found, hfound, hin', rfl⟩⟩
  · rw [if_neg fun hrefers' => hsheet (hrefers.mp hrefers')]
    unfold LineEdit.areaImage? LineEdit.positionImage? at himage
    dsimp only at himage
    rw [if_neg (show (Position.ofAddress found address).sheet ≠ id from hsheet)] at himage
    cases himage
    exact ⟨fun hrefers' => absurd (hrefers.mp hrefers') hsheet, Scope.resolve_cell.mpr ⟨found, hfound, hin, rfl⟩⟩

/-- An adjusted reference to a range means the image of that range. -/
theorem resolve_adjusted_range {qualifier : Option String} {first last : Address} {found : SheetId} {a' : Area}
    (hfound : e.scope.qualified? home qualifier = some found)
    (hin : (Rect.ofCorners first last).isWithin e.settings.columns e.settings.rows = true)
    (hfree : (Reference.range qualifier first last).refersTo home id s.name = true →
      d.isFree (.range qualifier first last) = true)
    (himage : d.areaImage? (e.limit d.axis) id (.range found (Rect.ofCorners first last)) = some a') :
    ((Reference.range qualifier first last).refersTo home id s.name = true →
        (d.referenceImage? (e.limit d.axis) (.range qualifier first last)).isSome = true) ∧
      (e.workbook.scope (e.movedNames id d) e.settings).resolve
        (d.adjusted (e.limit d.axis) home id s.name (.range qualifier first last)) home = .ok a' := by
  have hrefers : (Reference.range qualifier first last).refersTo home id s.name = true ↔ found = id :=
    refersTo_iff h.wellFormed hdistinct hs hfound
  unfold LineEdit.adjusted
  unfold LineEdit.areaImage? at himage
  dsimp only at himage
  by_cases hsheet : found = id
  · subst hsheet
    rw [if_pos rfl] at himage
    obtain ⟨rect, hrect, rfl⟩ := Option.map_eq_some_iff.mp himage
    have hfree := hfree (hrefers.mpr rfl)
    unfold LineEdit.isFree at hfree
    rw [Bool.and_eq_true, Bool.not_eq_true', Bool.not_eq_true'] at hfree
    have hwithin : rect.isWithin e.settings.columns e.settings.rows = true := by
      rw [IsEditable.limit_eq_along] at hrect
      exact LineEdit.isWithin_rectImage? hd.pos hd.line_le_lastLine hin hrect
    rw [LineEdit.rectImage?_ofCorners hfree.1 hfree.2] at hrect
    obtain ⟨⟨first', last'⟩, hcorners, rfl⟩ := Option.map_eq_some_iff.mp hrect
    have hnew : d.referenceImage? (e.limit d.axis) (.range qualifier first last) =
        some (.range qualifier first' last') :=
      congrArg (Option.map _) hcorners
    rw [if_pos (hrefers.mpr rfl), hnew]
    exact ⟨fun _ => rfl, Scope.resolve_range.mpr ⟨found, hfound, hwithin, rfl⟩⟩
  · rw [if_neg hsheet] at himage
    cases himage
    rw [if_neg fun hrefers' => hsheet (hrefers.mp hrefers')]
    exact ⟨fun hrefers' => absurd (hrefers.mp hrefers') hsheet, Scope.resolve_range.mpr ⟨found, hfound, hin, rfl⟩⟩

omit h hd hdistinct hs in
/-- A name stays as it is written, and its area moves. -/
theorem resolve_moved_name {n : String} {area : NamedArea} {a' : Area} (hget : e.names.get? n = some area)
    (hlive : (e.workbook.sheet? area.sheet).isSome = true)
    (himage : d.areaImage? (e.limit d.axis) id (.range area.sheet area.rect) = some a') :
    (e.workbook.scope (e.movedNames id d) e.settings).resolve (.name n) home = .ok a' := by
  have hget' : (e.movedNames id d).get? n = NamedAreas.moved id (d.rectImage? (e.limit d.axis)) area :=
    (NamedAreas.get?_adjust _ _ _ _).trans (congrArg (Option.bind · _) hget)
  unfold LineEdit.areaImage? at himage
  unfold NamedAreas.moved at hget'
  dsimp only at himage
  have hmeans : ∀ {moved : NamedArea}, (e.movedNames id d).get? n = some moved →
      moved.sheet = area.sheet → (e.workbook.scope (e.movedNames id d) e.settings).resolve (.name n) home =
        .ok (.range moved.sheet moved.rect) := fun hmoved hsheet => Scope.resolve_name.mpr
    ⟨_, (area?_scope (e := { e with names := e.movedNames id d })).mpr ⟨_, hmoved, hsheet ▸ hlive, rfl⟩, rfl⟩
  by_cases hsheet : area.sheet = id
  · rw [if_pos hsheet] at himage hget'
    obtain ⟨rect, hrect, rfl⟩ := Option.map_eq_some_iff.mp himage
    rw [hrect] at hget'
    exact hmeans hget' rfl
  · rw [if_neg hsheet] at himage hget'
    cases himage
    exact hmeans hget' rfl

/-- **An adjusted reference means the image of what the reference meant**, if no corner of it is fixed. In
particular its cells are not gone. -/
theorem resolve_adjusted {r : Reference} {a a' : Area} (ha : e.scope.resolve r home = .ok a)
    (hfree : r.refersTo home id s.name = true → d.isFree r = true)
    (himage : d.areaImage? (e.limit d.axis) id a = some a') :
    (r.refersTo home id s.name = true → (d.referenceImage? (e.limit d.axis) r).isSome = true) ∧
      (e.workbook.scope (e.movedNames id d) e.settings).resolve
        (d.adjusted (e.limit d.axis) home id s.name r) home = .ok a' := by
  cases r with
  | cell qualifier address =>
    obtain ⟨found, hfound, hin, rfl⟩ := Scope.resolve_cell.mp ha
    exact resolve_adjusted_cell h hd hdistinct hs hfound hin hfree himage
  | range qualifier first last =>
    obtain ⟨found, hfound, hin, rfl⟩ := Scope.resolve_range.mp ha
    exact resolve_adjusted_range h hd hdistinct hs hfound hin hfree himage
  | name n =>
    obtain ⟨_, harea, rfl⟩ := Scope.resolve_name.mp ha
    obtain ⟨area, hget, hlive, rfl⟩ := area?_scope.mp harea
    refine ⟨fun _ => rfl, ?_⟩
    have hself : d.adjusted (e.limit d.axis) home id s.name (.name n) = .name n := ite_self _
    rw [hself]
    exact resolve_moved_name hget hlive himage

end Resolved

end Meaning

end Engine

end Spreadsheet
