import Spreadsheet.Proofs.Misreading
import Spreadsheet.Proofs.Moving
import Spreadsheet.Proofs.Reversing

/-!
# Restoring: inserted lines that are deleted again

Lines are inserted on a sheet and the same lines are deleted. If the insertion pushes nothing off the grid
(`Engine.HasRoom`), the two undo each other, on every grid: whatever the insertion moves comes back
(`Inserts.comesBack`), and so a cell that is stored meets no other one on its way.

The texts of formulas are adjusted twice. They need not be what they were, since the corners of a range come back
in order, but they mean what they meant, or nothing if they meant nothing (`Inserts.linkAt_eq`).

All this is about formulas that were read. A text with a syntax error is adjusted too, operand by operand, and may
become a formula by it (`not_restores_touchingOperands`).
-/

namespace Spreadsheet

open Grid DependencyGraph

/-- A map with an inverse on a list is undone by it, if what is dropped on the way is not in the list. -/
theorem filterMap_filterMap_eq_self {α β : Type} {f : α → Option β} {g : β → Option α} {keep : β → Bool}
    {keep' : α → Bool} {l : List α}
    (h : ∀ a ∈ l, keep' a = true ∧ ∃ b, f a = some b ∧ keep b = true ∧ g b = some a) :
    (((l.filterMap f).filter keep).filterMap g).filter keep' = l := by
  induction l with
  | nil => rfl
  | cons a l ih =>
    obtain ⟨hkeep', b, hb, hkeep, ha⟩ := h a List.mem_cons_self
    rw [List.filterMap_cons_some hb, List.filter_cons_of_pos hkeep, List.filterMap_cons_some ha,
      List.filter_cons_of_pos hkeep', ih fun a ha => h a (List.mem_cons_of_mem _ ha)]

/-- An insertion keeps the size of a rectangle that is before or behind it, and makes others larger. -/
theorem LineEdit.isSingle_rectImage? {d : LineEdit} {limit : Nat} (hinserts : d.change = .insertion)
    (hlimit : limit ≤ lastLine) {r r' : Rect} (h : d.lineOf r.bottomRight + d.count ≤ limit)
    (hr : d.rectImage? limit r = some r') (hspread : r.isSingle = false) : r'.isSingle = false := by
  have hsingle : ∀ r : Rect, r.isSingle = true ↔
      d.lineOf r.topLeft = d.lineOf r.bottomRight ∧ d.crossOf r.topLeft = d.crossOf r.bottomRight := by
    intro r
    unfold Rect.isSingle lineOf crossOf
    rw [Bool.and_eq_true, beq_iff_eq, beq_iff_eq]
    cases d.axis
    · exact and_comm
    · exact Iff.rfl
  have hline := lineOf_le d r
  obtain ⟨⟨hcross, hcross'⟩, hfirst, last, hlast, hbottom, -, -⟩ := rectImage?_spec hr
  rw [lowEdge_eq_shifted hinserts hlimit (by omega)] at hfirst
  rw [highEdge?_eq_shifted hinserts hlimit h] at hlast
  cases hlast
  rw [Nat.min_eq_left ((d.shifted_le _).trans h)] at hbottom
  rw [Bool.eq_false_iff, Ne, hsingle] at hspread ⊢
  rintro ⟨hsame, hsame'⟩
  rw [hfirst, hbottom] at hsame
  rw [hcross, hcross'] at hsame'
  exact hspread ⟨hline.antisymm (d.shifted_le_shifted.mp hsame.ge), hsame'⟩

namespace Engine

/-- Lines can be inserted without pushing anything off the grid: no cell, merged region or named area of the sheet,
and no cell that a formula refers to. The references to the sheet are not fixed on the axis. -/
structure HasRoom (e : Engine) (id : SheetId) (d : LineEdit) (s : Sheet) : Prop where
  cells : ∀ p, (e.workbook.cell? p).isSome = true → p.sheet = id →
    d.lineOf p.address + d.count ≤ e.limit d.axis
  merges : ∀ m ∈ s.merges, d.lineOf m.bottomRight + d.count ≤ e.limit d.axis
  names : ∀ n area, e.names.get? n = some area → area.sheet = id →
    d.lineOf area.rect.bottomRight + d.count ≤ e.limit d.axis
  references : ∀ p x, e.workbook.tree? p = some x → ∀ r ∈ x.targets, r.refersTo p.sheet id s.name = true →
    d.isFree r = true ∧ d.HasRoom (e.limit d.axis) r

/-- An engine has what another one had. -/
structure Restores (e e' : Engine) : Prop where
  /-- A cell is where it was, with the same kind of content and the same value. -/
  cells : ∀ p c, e.workbook.cell? p = some c → ∃ c', e'.workbook.cell? p = some c' ∧ c'.value = c.value ∧
    (∀ v, c.content = .constant v → c'.content = .constant v) ∧
    ∀ f, c.content = .formula f → ∃ f', c'.content = .formula f'
  /-- Nothing else is there. -/
  stored : ∀ p, (e'.workbook.cell? p).isSome = (e.workbook.cell? p).isSome
  /-- A formula, or a text with a syntax error whose operands stand apart, is one again, reads what it read, and is
  unresolved if it was. -/
  reads : ∀ p c f, e.workbook.cell? p = some c → c.content = .formula f →
    (∃ x, f.parsed = some (.ok x)) ∨ f.IsMisread e.settings.locale →
      (e'.workbook.tree? p).isSome = (e.workbook.tree? p).isSome ∧
        e'.graph.precedentsOf p = e.graph.precedentsOf p ∧
        (p ∈ e'.graph.unresolved ↔ p ∈ e.graph.unresolved) ∧ e'.workbook.linkKind? p = e.workbook.linkKind? p
  merges : ∀ id, (e'.workbook.sheet? id).map Sheet.merges = (e.workbook.sheet? id).map Sheet.merges
  names : ∀ n, e'.names.get? n = e.names.get? n

/-- An insertion of lines that is accepted and pushes nothing off the grid, in an engine that makes no passes by
itself. -/
structure Inserts (e : Engine) (id : SheetId) (d : LineEdit) (s : Sheet) : Prop where
  consistent : e.Consistent
  manual : e.settings.autoRecalculate = false
  sheet_eq : e.workbook.sheet? id = some s
  editable : e.IsEditable d
  inserts : d.change = .insertion
  room : e.HasRoom id d s
  after : (e.shiftLines id d s).Consistent

/-- The frame after an edit of lines. -/
theorem frame_shiftLines {e : Engine} {id : SheetId} {s : Sheet} (hs : e.workbook.sheet? id = some s) (d : LineEdit)
    (id' : SheetId) : (e.shiftLines id d s).workbook.frame id' =
      if id' = id then some (s.name, (e.movedSheet d s).merges) else e.workbook.frame id' := by
  rw [(sameFrame_shiftLines e id d s).frame_eq]
  unfold Workbook.frame
  rw [sheet?_movedWorkbook hs]
  split <;> rfl

namespace Inserts

variable {e : Engine} {id : SheetId} {d : LineEdit} {s : Sheet} (i : e.Inserts id d s)
include i

theorem settings_eq : (e.shiftLines id d s).settings = e.settings :=
  (shiftLines_spec i.consistent i.manual i.sheet_eq).1

theorem limit_eq (axis : Axis) : (e.shiftLines id d s).limit axis = e.limit axis := by
  unfold limit
  rw [i.settings_eq]

/-- The deletion is made on lines of the same grid. -/
theorem limit_reversed : (e.shiftLines id d s).limit d.reversed.axis = e.limit d.axis :=
  i.limit_eq d.axis

theorem names_eq : (e.shiftLines id d s).names = e.movedNames id d :=
  (shiftLines_spec i.consistent i.manual i.sheet_eq).2.1

/-- The sheet after the insertion. -/
theorem exists_sheet : ∃ s₁, (e.shiftLines id d s).workbook.sheet? id = some s₁ ∧ s₁.name = s.name ∧
    s₁.merges = (e.movedSheet d s).merges := by
  have hframe := frame_shiftLines i.sheet_eq d id
  rw [if_pos rfl] at hframe
  obtain ⟨s₁, hs₁, heq⟩ := Option.map_eq_some_iff.mp hframe
  exact ⟨s₁, hs₁, congrArg Prod.fst heq, congrArg Prod.snd heq⟩

/-- The deletion can be made. -/
theorem editable_reversed : (e.shiftLines id d s).IsEditable d.reversed where
  pos := i.editable.pos
  line_le := (i.limit_eq d.axis).symm ▸ i.editable.line_le
  countable := i.settings_eq.symm ▸ i.editable.countable

theorem manual_after : (e.shiftLines id d s).settings.autoRecalculate = false :=
  i.settings_eq.symm ▸ i.manual

/-! ### Cells -/

/-- A cell that is stored goes somewhere, and goes back from there. -/
theorem exists_image {p : Position} (hp : (e.workbook.cell? p).isSome = true) :
    ∃ q, e.image id d p = some q ∧ (e.shiftLines id d s).image id d.reversed q = some p := by
  unfold image
  rw [i.limit_reversed]
  exact LineEdit.exists_positionImage? i.inserts i.editable.limit_le fun hsheet => i.room.cells p hp hsheet

/-- What is stored after the insertion goes back to a cell that was stored. -/
theorem source {p q : Position} (hq : ((e.shiftLines id d s).workbook.cell? q).isSome = true)
    (hback : (e.shiftLines id d s).image id d.reversed q = some p) :
    (e.workbook.cell? p).isSome = true ∧ e.image id d p = some q := by
  obtain ⟨p', hp', himage⟩ := source_shifted i.consistent i.manual i.sheet_eq hq
  obtain ⟨q', himage', hback'⟩ := i.exists_image hp'
  obtain rfl := Option.some.inj (himage.symm.trans himage')
  obtain rfl := Option.some.inj (hback.symm.trans hback')
  exact ⟨hp', himage⟩

/-- **A cell meets no other one, neither on its way nor on its way back.** -/
theorem comesBack {p : Position} (hp : (e.workbook.cell? p).isSome = true) :
    ∃ q, e.ComesFrom id d p q ∧ (e.shiftLines id d s).ComesFrom id d.reversed q p := by
  obtain ⟨q, himage, hback⟩ := i.exists_image hp
  refine ⟨q, ⟨himage, fun p' hp' himage' => ?_⟩, hback, fun q' hq' hback' => ?_⟩
  · obtain ⟨q', himage'', hback'⟩ := i.exists_image hp'
    obtain rfl := Option.some.inj (himage'.symm.trans himage'')
    exact Option.some.inj (hback'.symm.trans hback)
  · exact Option.some.inj ((i.source hq' hback').2.symm.trans himage)

/-- In between, a cell is where the insertion puts it, with its value. -/
theorem exists_moved {p : Position} {c : Cell} (hc : e.workbook.cell? p = some c) :
    ∃ q c₁, e.image id d p = some q ∧ (e.shiftLines id d s).workbook.cell? q = some c₁ ∧ c₁.value = c.value := by
  obtain ⟨q, hq, -⟩ := i.comesBack (by rw [hc]; rfl)
  obtain ⟨c₁, hc₁, hvalue, -⟩ := cell_shifted i.consistent i.manual i.sheet_eq hc hq
  exact ⟨q, c₁, hq.1, hc₁, hvalue⟩

/-! ### Names -/

/-- Every name has the area that it had. -/
theorem get?_names (n : String) :
    ((e.shiftLines id d s).movedNames id d.reversed).get? n = e.names.get? n := by
  unfold movedNames
  rw [NamedAreas.get?_adjust, i.names_eq, i.limit_reversed]
  unfold movedNames
  rw [NamedAreas.get?_adjust]
  cases hn : e.names.get? n with
  | none => rfl
  | some area =>
    rw [Option.bind_some]
    by_cases hsheet : area.sheet = id
    · obtain ⟨rect, himage, hback⟩ := LineEdit.exists_rectImage?_reversed i.inserts i.editable.limit_le
        (i.room.names n area hn hsheet)
      have hmoved : NamedAreas.moved id (d.rectImage? (e.limit d.axis)) area = some { area with rect } := by
        unfold NamedAreas.moved
        rw [if_pos hsheet, himage]
        rfl
      rw [hmoved, Option.bind_some]
      unfold NamedAreas.moved
      rw [if_pos hsheet, hback]
      rfl
    · have hmoved : ∀ target, NamedAreas.moved id target area = some area := fun _ => if_neg hsheet
      rw [hmoved, Option.bind_some, hmoved]

section Back

variable {s₁ : Sheet} (hs₁ : (e.shiftLines id d s).workbook.sheet? id = some s₁)
include hs₁

/-- A cell comes back with its value. -/
theorem exists_cell {p : Position} {c : Cell} (hc : e.workbook.cell? p = some c) :
    ∃ c', ((e.shiftLines id d s).shiftLines id d.reversed s₁).workbook.cell? p = some c' ∧ c'.value = c.value ∧
      (∀ v, c.content = .constant v → c'.content = .constant v) ∧
      ∀ f, c.content = .formula f → ∃ f', c'.content = .formula f' := by
  obtain ⟨q, hq, hback⟩ := i.comesBack (by rw [hc]; rfl)
  obtain ⟨c₁, hc₁, hvalue₁, hconstant₁, hformula₁⟩ := cell_shifted i.consistent i.manual i.sheet_eq hc hq
  obtain ⟨c₂, hc₂, hvalue₂, hconstant₂, hformula₂⟩ := cell_shifted i.after i.manual_after hs₁ hc₁ hback
  refine ⟨c₂, hc₂, hvalue₂.trans hvalue₁, fun v hv => hconstant₂ v (hconstant₁ v hv), fun f hf => ?_⟩
  obtain ⟨f₁, hf₁, -⟩ := hformula₁ f hf
  exact (hformula₂ f₁ hf₁).imp fun _ => And.left

theorem isSome_eq (p : Position) :
    (((e.shiftLines id d s).shiftLines id d.reversed s₁).workbook.cell? p).isSome = (e.workbook.cell? p).isSome := by
  rw [Bool.eq_iff_iff]
  constructor
  · intro hp
    obtain ⟨q, hq, hback⟩ := source_shifted i.after i.manual_after hs₁ hp
    exact (i.source hq hback).1
  · intro hp
    obtain ⟨c, hc⟩ := Option.isSome_iff_exists.mp hp
    obtain ⟨c', hc', -⟩ := i.exists_cell hs₁ hc
    rw [hc']
    rfl

/-! ### Regions -/

/-- The merged regions come back, none of which the insertion makes a single cell. -/
theorem merges_eq (hspread : e.workbook.MergesSpread) (hmerges : s₁.merges = (e.movedSheet d s).merges)
    (id' : SheetId) :
    (((e.shiftLines id d s).shiftLines id d.reversed s₁).workbook.sheet? id').map Sheet.merges =
      (e.workbook.sheet? id').map Sheet.merges := by
  have hframe : ∀ w : Workbook, (w.sheet? id').map Sheet.merges = (w.frame id').map Prod.snd := fun w => by
    simp [Workbook.frame, Function.comp_def]
  rw [hframe, frame_shiftLines hs₁]
  split
  · next hid =>
    rw [hid, i.sheet_eq]
    refine congrArg some ?_
    show (s₁.merges.filterMap _).filter _ = s.merges
    rw [hmerges, i.limit_reversed]
    refine filterMap_filterMap_eq_self fun m hm => ?_
    have hroom := i.room.merges m hm
    have hseveral := hspread id s i.sheet_eq m hm
    obtain ⟨m', himage, hback⟩ := LineEdit.exists_rectImage?_reversed i.inserts i.editable.limit_le hroom
    have hseveral' := LineEdit.isSingle_rectImage? i.inserts i.editable.limit_le hroom himage hseveral
    exact ⟨by rw [hseveral]; rfl, m', himage, by rw [hseveral']; rfl, hback⟩
  · next hid => rw [frame_shiftLines i.sheet_eq, if_neg hid, hframe]

/-! ### Formulas -/

/-- The references of a formula come back, those to the sheet with their corners in order. -/
theorem exists_tree (hlocale : e.settings.locale.IsUnambiguous) (hname : s₁.name = s.name) {p : Position} {x : Expr}
    (hx : e.workbook.tree? p = some x) :
    ∃ y, ((e.shiftLines id d s).shiftLines id d.reversed s₁).workbook.tree? p = some y ∧
      y.targets = x.targets.map fun r => if r.refersTo p.sheet id s.name then d.ordered r else r := by
  have hroom := i.room.references p x hx
  obtain ⟨c, hc, -⟩ := Option.bind_eq_some_iff.mp hx
  obtain ⟨q, hq, hback⟩ := i.comesBack (by rw [hc]; rfl)
  have hsheet : q.sheet = p.sheet := (LineEdit.positionImage?_eq_some.mp hq.1).1
  obtain ⟨y, hy, hytargets⟩ := tree_shifted i.consistent i.manual i.sheet_eq hlocale i.editable hq hx
    fun r hr hrefers => by
      obtain ⟨hfree, hroom⟩ := hroom r hr hrefers
      obtain ⟨r', himage, -⟩ := LineEdit.exists_referenceImage? i.inserts i.editable.limit_le hfree hroom
      rw [himage]
      rfl
  obtain ⟨z, hz, hztargets⟩ := tree_shifted i.after i.manual_after hs₁ (i.settings_eq.symm ▸ hlocale)
    i.editable_reversed hback hy fun r' hr' hrefers' => by
      rw [hytargets] at hr'
      obtain ⟨r, hr, rfl⟩ := List.mem_map.mp hr'
      rw [hsheet, hname, LineEdit.refersTo_adjusted] at hrefers'
      rw [i.limit_reversed,
        LineEdit.exists_adjusted i.inserts i.editable.limit_le (hroom r hr) hrefers']
      rfl
  refine ⟨z, hz, ?_⟩
  rw [hztargets, hytargets, List.map_map, hsheet, hname, i.limit_reversed]
  exact List.map_congr_left fun r hr => LineEdit.adjusted_adjusted i.inserts i.editable.limit_le (hroom r hr)

/-- References mean what they meant. -/
theorem agreeOn (r : Reference) (home : SheetId) :
    e.scope.AgreeOn ((e.shiftLines id d s).shiftLines id d.reversed s₁).scope home r := by
  rw [(shiftLines_spec i.after i.manual_after hs₁).2.2.1, i.settings_eq]
  have hsame := (sameFrame_shiftLines e id d s).sameNames.trans
    (Workbook.sameNames_modifySheet i.sheet_eq (t := e.movedSheet d s) rfl)
  rw [Workbook.scope_eq_of_names hsame.order_eq hsame.name_eq]
  exact agreeOn_of_names (fun n _ => i.get?_names n) home

/-- A text with a syntax error comes back with one, if its operands stand apart. -/
theorem tree?_eq_none (hlocale : e.settings.locale.IsUnambiguous) {p : Position} {c : Cell} {f : Formula}
    (hc : e.workbook.cell? p = some c) (hf : c.content = .formula f)
    (hmisread : f.IsMisread e.settings.locale) :
    ((e.shiftLines id d s).shiftLines id d.reversed s₁).workbook.tree? p = none := by
  have hread : ∀ {e : Engine}, e.Consistent → ∀ {p c f}, e.workbook.cell? p = some c → c.content = .formula f →
      ∀ r, f.parsed = some r → e.readFormula f.text = r := by
    intro e he p c f hc hf r hr
    rcases (he.cells p c hc).formula f hf with hnone | hsome
    · rw [hnone] at hr
      cases hr
    · exact Option.some.inj (hsome.symm.trans hr)
  obtain ⟨q, hq, hback⟩ := i.comesBack (by rw [hc]; rfl)
  obtain ⟨c₁, hc₁, -, -, hformula₁⟩ := cell_shifted i.consistent i.manual i.sheet_eq hc hq
  obtain ⟨f₁, hf₁, hedited₁⟩ := hformula₁ f hf
  have hmisread₁ := isMisread_of_editedTo hlocale hmisread (hread i.consistent hc hf)
    (LineEdit.answersReferences_rewrite i.editable.pos i.editable.limit_le) hedited₁
  rw [← i.settings_eq] at hlocale hmisread₁
  obtain ⟨c₂, hc₂, -, -, hformula₂⟩ := cell_shifted i.after i.manual_after hs₁ hc₁ hback
  obtain ⟨f₂, hf₂, hedited₂⟩ := hformula₂ f₁ hf₁
  have hmisread₂ := isMisread_of_editedTo hlocale hmisread₁ (hread i.after hc₁ hf₁)
    (LineEdit.answersReferences_rewrite i.editable_reversed.pos i.editable_reversed.limit_le) hedited₂
  exact hmisread₂.tree?_eq_none hc₂ hf₂

/-- **What is to be recorded of a formula comes back.** -/
theorem linkAt_eq (hlocale : e.settings.locale.IsUnambiguous) (hname : s₁.name = s.name) {p : Position} {c : Cell}
    {f : Formula} (hc : e.workbook.cell? p = some c) (hf : c.content = .formula f)
    (hparsed : (∃ x, f.parsed = some (.ok x)) ∨ f.IsMisread e.settings.locale) :
    (((e.shiftLines id d s).shiftLines id d.reversed s₁).workbook.tree? p).isSome = (e.workbook.tree? p).isSome ∧
      ((e.shiftLines id d s).shiftLines id d.reversed s₁).linkAt p = e.linkAt p := by
  rcases hparsed with ⟨x, hx⟩ | hmisread
  · have hx := Workbook.tree?_of_cell hc hf hx
    obtain ⟨y, hy, htargets⟩ := i.exists_tree hs₁ hlocale hname hx
    rw [linkAt_of_tree hy, linkAt_of_tree hx, hy, hx]
    refine ⟨rfl, linkOf_eq_of_targets htargets (fun r _ => ?_) fun r _ a => ?_⟩
    · split
      · exact LineEdit.name?_ordered d r
      · rfl
    · rw [i.agreeOn hs₁ r p.sheet a]
      split
      · exact (Scope.resolve_ordered _ d r p.sheet a).symm
      · rfl
  · have hnone := hmisread.tree?_eq_none hc hf
    have hnone' := i.tree?_eq_none hs₁ hlocale hc hf hmisread
    unfold linkAt
    rw [hnone, hnone']
    exact ⟨rfl, rfl⟩

/-- Everything comes back, if what is recorded of formulas is what is to be recorded. -/
theorem restored (hlocale : e.settings.locale.IsUnambiguous) (hspread : e.workbook.MergesSpread)
    (hname : s₁.name = s.name) (hmerges : s₁.merges = (e.movedSheet d s).merges)
    (hlinked : ∀ p, ((e.shiftLines id d s).shiftLines id d.reversed s₁).LinkedAt p) :
    Restores e ((e.shiftLines id d s).shiftLines id d.reversed s₁) := by
  constructor
  case cells => exact fun p c hc => i.exists_cell hs₁ hc
  case stored => exact i.isSome_eq hs₁
  case reads =>
    intro p c f hc hf hparsed
    obtain ⟨htree, hlink⟩ := i.linkAt_eq hs₁ hlocale hname hc hf hparsed
    have hbefore := i.consistent.linked p
    have hrecord := ((hlinked p).link_eq.trans hlink).trans hbefore.link_eq.symm
    refine ⟨htree, congrArg Link.areas hrecord, Bool.eq_iff_iff.mp (congrArg Link.unresolved hrecord), ?_⟩
    rw [(hlinked p).kind_eq, hbefore.kind_eq, hlink]
  case merges => exact i.merges_eq hs₁ hspread hmerges
  case names =>
    intro n
    rw [(shiftLines_spec i.after i.manual_after hs₁).2.1]
    exact i.get?_names n

end Back

end Inserts

/-- Inserted lines can be deleted again. -/
theorem Inserts.delete_eq {e : Engine} {id : SheetId} {axis : Axis} {line count : Nat} {s s₁ : Sheet}
    (i : e.Inserts id ⟨axis, .insertion, line, count⟩ s)
    (hchecked : e.editable id ⟨axis, .insertion, line, count⟩ = .ok s)
    (hs₁ : (e.shiftLines id ⟨axis, .insertion, line, count⟩ s).workbook.sheet? id = some s₁) :
    (e.shiftLines id ⟨axis, .insertion, line, count⟩ s).applyEdit id ⟨axis, .deletion, line, count⟩ =
      ⟨(e.shiftLines id ⟨axis, .insertion, line, count⟩ s).shiftLines id ⟨axis, .deletion, line, count⟩ s₁,
        .ok ()⟩ := by
  obtain ⟨-, hline⟩ := editable_eq_ok_iff.mp hchecked
  have hchecked₁ : (e.shiftLines id ⟨axis, .insertion, line, count⟩ s).editable id ⟨axis, .deletion, line, count⟩ =
      .ok s₁ :=
    editable_eq_ok_iff.mpr ⟨hs₁, by rw [i.limit_eq]; exact hline⟩
  unfold applyEdit edit
  rw [hchecked₁, perform_ok]

/-- **Lines that are inserted and deleted again leave everything as it was**: in every reachable engine that makes
no passes by itself, in a locale whose separator has no other meaning in formulas, if the insertion pushes nothing
off the grid. In between, every cell is where the insertion puts it. -/
theorem Reachable.restores {library : Library} {e : Engine} (h : Reachable library e)
    (hlocale : e.settings.locale.IsUnambiguous) (hmanual : e.settings.autoRecalculate = false) {id : SheetId}
    {s : Sheet} (hs : e.workbook.sheet? id = some s) {axis : Axis} {line count : Nat}
    (hroom : e.HasRoom id ⟨axis, .insertion, line, count⟩ s)
    (haccepted : (e.applyEdit id ⟨axis, .insertion, line, count⟩).result = .ok ()) :
    (∀ p c, e.workbook.cell? p = some c → ∃ q c₁, e.image id ⟨axis, .insertion, line, count⟩ p = some q ∧
        (e.applyEdit id ⟨axis, .insertion, line, count⟩).engine.workbook.cell? q = some c₁ ∧ c₁.value = c.value) ∧
      ((e.applyEdit id ⟨axis, .insertion, line, count⟩).engine.applyEdit id ⟨axis, .deletion, line, count⟩).result =
        .ok () ∧
      Restores e ((e.applyEdit id ⟨axis, .insertion, line, count⟩).engine.applyEdit id
        ⟨axis, .deletion, line, count⟩).engine := by
  obtain ⟨hchecked, hengine⟩ := applyEdit_of_accepted hs haccepted
  have hafter : Reachable library (e.shiftLines id ⟨axis, .insertion, line, count⟩ s) :=
    hengine ▸ Reachable.call (.editLines id ⟨axis, .insertion, line, count⟩) h
  rw [hengine]
  have i : e.Inserts id ⟨axis, .insertion, line, count⟩ s :=
    ⟨h.consistent, hmanual, hs, ⟨(editable_eq_ok hchecked).2.1, (editable_eq_ok hchecked).2.2,
      (keeps_of_reachable h).2.1⟩, rfl, hroom, hafter.consistent⟩
  obtain ⟨s₁, hs₁, hname, hmerges⟩ := i.exists_sheet
  have hlinked := (hafter.call (.editLines id ⟨axis, .deletion, line, count⟩)).consistent.linked
  change ∀ p, ((e.shiftLines id ⟨axis, .insertion, line, count⟩ s).applyEdit id
    ⟨axis, .deletion, line, count⟩).engine.LinkedAt p at hlinked
  rw [i.delete_eq hchecked hs₁] at hlinked ⊢
  exact ⟨fun p c hc => i.exists_moved hc, rfl, i.restored hs₁ hlocale h.mergesSpread hname hmerges hlinked⟩

/-! ### Room can be checked -/

/-- Whether lines can be inserted on a sheet without pushing anything off the grid. -/
def hasRoom (e : Engine) (id : SheetId) (d : LineEdit) (s : Sheet) : Bool :=
  s.spots.all (fun spot => decide (d.lineOf spot.address + d.count ≤ e.limit d.axis)) &&
    s.merges.all (fun m => decide (d.lineOf m.bottomRight + d.count ≤ e.limit d.axis)) &&
    e.names.entries.toList.all (fun entry =>
      entry.2.sheet != id || decide (d.lineOf entry.2.rect.bottomRight + d.count ≤ e.limit d.axis)) &&
    e.workbook.formulaTexts.all fun entry => (e.workbook.tree? entry.1).all fun x => x.targets.all fun r =>
      !r.refersTo entry.1.sheet id s.name || (d.isFree r && decide (d.HasRoom (e.limit d.axis) r))

theorem hasRoom_of_check {e : Engine} (hw : e.workbook.WellFormed) {id : SheetId} {d : LineEdit} {s : Sheet}
    (hs : e.workbook.sheet? id = some s) (h : (e.workbook.sheet? id).all (e.hasRoom id d) = true) :
    e.HasRoom id d s := by
  rw [hs, Option.all_some] at h
  unfold hasRoom at h
  simp only [Bool.and_eq_true, List.all_eq_true, decide_eq_true_eq] at h
  obtain ⟨⟨⟨hcells, hmerges⟩, hnames⟩, hreferences⟩ := h
  constructor
  case cells =>
    rintro p hp rfl
    unfold Workbook.cell? at hp
    rw [hs] at hp
    exact hcells p.spot (Std.TreeMap.mem_keys.mpr (Std.TreeMap.isSome_getElem?_iff_mem.mp hp))
  case merges => exact hmerges
  case names =>
    intro n area hn hsheet
    have hentry := hnames (Text.lower n, area) (Std.TreeMap.mem_toList_iff_getElem?_eq_some.mpr hn)
    simpa [hsheet] using hentry
  case references =>
    intro p x hx r hr hrefers
    obtain ⟨c, hc, htree⟩ := Option.bind_eq_some_iff.mp hx
    obtain ⟨f, hf, -⟩ := Cell.tree?_eq_some.mp htree
    have htext : (p, f.text) ∈ e.workbook.formulaTexts := (Workbook.mem_formulaTexts hw).mpr
      ⟨c, hc, congrArg (Option.map Formula.text) (Cell.formula?_eq_some.mpr hf)⟩
    have hentry := hreferences (p, f.text) htext
    rw [hx, Option.all_some, List.all_eq_true] at hentry
    simpa [hrefers] using hentry r hr

/-- Calls that leave a formula in the fourth row, and a range, a named area and a merged region across it. -/
def readAndMerged : List Call :=
  [.addSheet "S", .defineName "Rates" firstSheet ⟨5, 2, 6, 7, by decide, by decide⟩,
    .mergeCells firstSheet ⟨3, 3, 4, 5, by decide, by decide⟩,
    .setFormula firstSheet (.plain 1 4) "=B5+SUM(B6:B2)+rates"]

/-- Two lines are inserted in front of the fourth row of the sheet, which cuts a range, a named area and a merged
region in two, and deleted again. The corners of the range change places. -/
theorem restores_readAndMerged :
    ∃ s, ((start {} .standard).run readAndMerged).workbook.sheet? firstSheet = some s ∧
      ((start {} .standard).run readAndMerged).HasRoom firstSheet ⟨.rows, .insertion, 4, 2⟩ s ∧
      Restores ((start {} .standard).run readAndMerged)
        ((((start {} .standard).run readAndMerged).applyEdit firstSheet ⟨.rows, .insertion, 4, 2⟩).engine.applyEdit
          firstSheet ⟨.rows, .deletion, 4, 2⟩).engine ∧
      ((((start {} .standard).run readAndMerged).applyEdit firstSheet ⟨.rows, .insertion, 4, 2⟩).engine.applyEdit
        firstSheet ⟨.rows, .deletion, 4, 2⟩).engine.formula? ⟨firstSheet, 4, 1⟩ =
          some "=B5+SUM(B2:B6)+rates" := by
  have hreachable : Reachable .standard ((start {} .standard).run readAndMerged) :=
    (Reachable.start {} ⟨by decide, by decide⟩).run readAndMerged
  have hsome : (((start {} .standard).run readAndMerged).workbook.sheet? firstSheet).isSome = true := by
    decide +kernel
  obtain ⟨s, hs⟩ := Option.isSome_iff_exists.mp hsome
  have hroom : ((start {} .standard).run readAndMerged).HasRoom firstSheet ⟨.rows, .insertion, 4, 2⟩ s :=
    hasRoom_of_check hreachable.consistent.wellFormed hs (by decide +kernel)
  have hlocale : ((start {} .standard).run readAndMerged).settings.locale = .invariant := by decide +kernel
  have hunambiguous : ((start {} .standard).run readAndMerged).settings.locale.IsUnambiguous := fun _ => by
    rw [hlocale]
    exact Locale.IsBuiltIn.hasPlainSeparator (Or.inl rfl)
  have haccepted : (((start {} .standard).run readAndMerged).applyEdit firstSheet ⟨.rows, .insertion, 4, 2⟩).result =
      .ok () := by
    decide +kernel
  have hrestores := hreachable.restores hunambiguous (by decide +kernel) hs hroom haccepted
  exact ⟨s, hs, hroom, hrestores.2.2, by decide +kernel⟩

/-! ### Texts that are read differently in between -/

/-- Calls that leave a text with a syntax error: a cell is followed at once by a quoted name. -/
def touchesQuotedName : List Call := [.addSheet "b", .setFormula firstSheet (.plain 1 1) "=C4'b'!B2"]

/-- **Neither an address with the separator nor operands that touch come back.** With the digit 5 between arguments,
a formula that reads a cell of the fourth row has a syntax error once this cell has been in the fifth row. In the
invariant locale, a cell that is followed by a quoted name is put together with it when the quotes are dropped: the
text had a syntax error, and is a formula with an unknown sheet afterwards. -/
theorem not_restores_touchingOperands :
    (Reachable .standard ((start { locale := digitLocale } .standard).run readsFourthRow) ∧
      ((start { locale := digitLocale } .standard).run readsFourthRow).settings.autoRecalculate = false ∧
      ((start { locale := digitLocale } .standard).run readsFourthRow).unread.toList = [] ∧
      (∃ s, ((start { locale := digitLocale } .standard).run readsFourthRow).workbook.sheet? firstSheet = some s ∧
        ((start { locale := digitLocale } .standard).run readsFourthRow).HasRoom firstSheet
          ⟨.rows, .insertion, 1, 1⟩ s) ∧
      (((start { locale := digitLocale } .standard).run readsFourthRow).applyEdit firstSheet
        ⟨.rows, .insertion, 1, 1⟩).result = .ok () ∧
      ¬Restores ((start { locale := digitLocale } .standard).run readsFourthRow)
        ((((start { locale := digitLocale } .standard).run readsFourthRow).applyEdit firstSheet
          ⟨.rows, .insertion, 1, 1⟩).engine.applyEdit firstSheet ⟨.rows, .deletion, 1, 1⟩).engine) ∧
    (Reachable .standard ((start {} .standard).run touchesQuotedName) ∧
      ((start {} .standard).run touchesQuotedName).settings.autoRecalculate = false ∧
      ((start {} .standard).run touchesQuotedName).unread.toList = [] ∧
      (∃ s, ((start {} .standard).run touchesQuotedName).workbook.sheet? firstSheet = some s ∧
        ((start {} .standard).run touchesQuotedName).HasRoom firstSheet ⟨.rows, .insertion, 1, 1⟩ s) ∧
      (((start {} .standard).run touchesQuotedName).applyEdit firstSheet ⟨.rows, .insertion, 1, 1⟩).result = .ok () ∧
      ((((start {} .standard).run touchesQuotedName).applyEdit firstSheet
        ⟨.rows, .insertion, 1, 1⟩).engine.applyEdit firstSheet ⟨.rows, .deletion, 1, 1⟩).engine.formula?
          ⟨firstSheet, 1, 1⟩ = some "=C5b!B3" ∧
      ¬∀ p, p ∈ ((((start {} .standard).run touchesQuotedName).applyEdit firstSheet
          ⟨.rows, .insertion, 1, 1⟩).engine.applyEdit firstSheet ⟨.rows, .deletion, 1, 1⟩).engine.graph.unresolved ↔
        p ∈ ((start {} .standard).run touchesQuotedName).graph.unresolved) := by
  constructor
  · have hreachable : Reachable .standard ((start { locale := digitLocale } .standard).run readsFourthRow) :=
      (Reachable.start _ ⟨by decide, by decide⟩).run readsFourthRow
    have hsome : (((start { locale := digitLocale } .standard).run readsFourthRow).workbook.sheet?
        firstSheet).isSome = true := by
      decide +kernel
    obtain ⟨s, hs⟩ := Option.isSome_iff_exists.mp hsome
    have hroom : ((start { locale := digitLocale } .standard).run readsFourthRow).HasRoom firstSheet
        ⟨.rows, .insertion, 1, 1⟩ s :=
      hasRoom_of_check hreachable.consistent.wellFormed hs (by decide +kernel)
    refine ⟨hreachable, by decide +kernel, by decide +kernel, ⟨s, hs, hroom⟩, by decide +kernel, fun h => ?_⟩
    have hbefore : (((start { locale := digitLocale } .standard).run readsFourthRow).workbook.tree?
        ⟨firstSheet, 1, 1⟩).isSome = true := by
      decide +kernel
    have hafter : (((((start { locale := digitLocale } .standard).run readsFourthRow).applyEdit firstSheet
        ⟨.rows, .insertion, 1, 1⟩).engine.applyEdit firstSheet ⟨.rows, .deletion, 1, 1⟩).engine.workbook.tree?
          ⟨firstSheet, 1, 1⟩).isSome = false := by
      decide +kernel
    obtain ⟨x, hx⟩ := Option.isSome_iff_exists.mp hbefore
    obtain ⟨c, hc, htree⟩ := Option.bind_eq_some_iff.mp hx
    obtain ⟨f, hf, hparsed⟩ := Cell.tree?_eq_some.mp htree
    have hread := (h.reads ⟨firstSheet, 1, 1⟩ c f hc hf (Or.inl ⟨x, hparsed⟩)).1
    rw [hafter, hbefore] at hread
    cases hread
  · have hreachable : Reachable .standard ((start {} .standard).run touchesQuotedName) :=
      (Reachable.start {} ⟨by decide, by decide⟩).run touchesQuotedName
    have hsome : (((start {} .standard).run touchesQuotedName).workbook.sheet? firstSheet).isSome = true := by
      decide +kernel
    obtain ⟨s, hs⟩ := Option.isSome_iff_exists.mp hsome
    have hroom : ((start {} .standard).run touchesQuotedName).HasRoom firstSheet ⟨.rows, .insertion, 1, 1⟩ s :=
      hasRoom_of_check hreachable.consistent.wellFormed hs (by decide +kernel)
    refine ⟨hreachable, by decide +kernel, by decide +kernel, ⟨s, hs, hroom⟩, by decide +kernel, by decide +kernel,
      fun h => ?_⟩
    have hbefore : ((start {} .standard).run touchesQuotedName).graph.unresolved.toList = [] := by
      decide +kernel
    have hafter : ⟨firstSheet, 1, 1⟩ ∈ ((((start {} .standard).run touchesQuotedName).applyEdit firstSheet
        ⟨.rows, .insertion, 1, 1⟩).engine.applyEdit firstSheet
          ⟨.rows, .deletion, 1, 1⟩).engine.graph.unresolved.toList := by
      decide +kernel
    have hmem := (h ⟨firstSheet, 1, 1⟩).mp (Std.TreeSet.mem_toList.mp hafter)
    rw [← Std.TreeSet.mem_toList, hbefore] at hmem
    cases hmem

end Engine

end Spreadsheet
