import Spreadsheet.Proofs.Naming
import Spreadsheet.Proofs.UpToDate

/-!
# Areas: merged regions and named areas in order

Whether a region overlaps another one is only looked at when it is merged, and whether an area lies on the
grid when it is named. From then on both are moved with the lines of their sheet, cut at the end of the grid
and lost with their cells or their sheet. After any calls they are still in order
(`Reachable.areasInOrder`): on every sheet the merged regions lie on the grid, have several cells each and
share none, so that it does not matter how they are listed; and every name is plain, is listed by its lower
case, and stands for cells of the grid on a sheet that is there.

Regions share no cell on a grid with room. On one without, an insertion can push the beginning of a region
no further than the last line that can be counted, where another one may be (`not_areasInOrder_heldMerge`).
-/

namespace Spreadsheet

open Grid

/-- A call that concerns the named areas. -/
def Call.Areas : Call → Prop
  | .defineName _ _ _ | .removeName _ | .removeSheet _ | .editLines _ _ => True
  | _ => False

/-- The merged regions of a sheet are in order on a grid of some size. -/
structure Sheet.MergesInOrder (s : Sheet) (columns rows : Nat) : Prop where
  normal : ∀ m ∈ s.merges, m.left ≤ m.right ∧ m.top ≤ m.bottom
  within : ∀ m ∈ s.merges, m.isWithin columns rows = true
  spread : ∀ m ∈ s.merges, m.isSingle = false
  apart : MergesApart s.merges
  /-- Every spot lies in at most one region. -/
  unique : ∀ spot : Spot, (s.merges.filter fun m => m.contains spot.col spot.row).length ≤ 1
  /-- Which spots are hidden does not depend on the order in which the regions are listed. -/
  isObscured_perm : ∀ merges : List Rect, merges.Perm s.merges →
    ({ s with merges } : Sheet).isObscured = s.isObscured

namespace Engine

/-- A name is in order: it is plain, is listed by its lower case, and stands for cells of the grid on a sheet
that is there. -/
structure NameInOrder (e : Engine) (key : String) (area : NamedArea) : Prop where
  plain : isPlainName area.name = true
  key_eq : key = Text.lower area.name
  live : e.workbook.contains area.sheet = true
  normal : area.rect.left ≤ area.rect.right ∧ area.rect.top ≤ area.rect.bottom
  fits : e.fits area.rect = true

/-- All names are in order. -/
def NamesInOrder (e : Engine) : Prop := ∀ key area, e.names.entries[key]? = some area → e.NameInOrder key area

/-- All merged regions and all names are in order. -/
structure AreasInOrder (e : Engine) : Prop where
  merges : ∀ id s, e.workbook.sheet? id = some s → s.MergesInOrder e.settings.columns e.settings.rows
  names : e.NamesInOrder

end Engine

/-! ### Regions that are apart -/

section Apart

variable {merges : List Rect} (h : MergesApart merges)
include h

/-- Of regions that are apart, at most one has a spot. -/
theorem MergesApart.unique (spot : Spot) :
    (merges.filter fun m => m.contains spot.col spot.row).length ≤ 1 := by
  generalize hfilter : (merges.filter fun m => m.contains spot.col spot.row) = found
  match found with
  | [] => exact Nat.zero_le 1
  | [_] => exact Nat.le_refl 1
  | m :: n :: rest =>
    have hapart := h.filter fun m => m.contains spot.col spot.row
    rw [hfilter] at hapart
    have hm : m ∈ merges.filter fun m => m.contains spot.col spot.row := by simp [hfilter]
    have hn : n ∈ merges.filter fun m => m.contains spot.col spot.row := by simp [hfilter]
    have hfree := (List.pairwise_cons.mp hapart).1 n List.mem_cons_self
    rw [Rect.intersects_of_contains (List.mem_filter.mp hm).2 (List.mem_filter.mp hn).2] at hfree
    cases hfree

/-- Regions that are apart hide the same spots in any order. -/
theorem MergesApart.hides_perm {merges' : List Rect} (hperm : merges'.Perm merges) :
    Workbook.hides merges' = Workbook.hides merges := by
  have hapart : MergesApart merges' := by
    refine hperm.symm.pairwise h fun {m n} hmn => ?_
    unfold Rect.intersects at hmn ⊢
    grind
  funext spot
  rw [Bool.eq_iff_iff, Workbook.hides_iff hapart, Workbook.hides_iff h]
  simp only [hperm.mem_iff]

end Apart

namespace Engine

/-! ### The parts of a call leave names alone -/

section Parts

variable (e : Engine)

@[simp]
theorem names_relink (p : Position) : (e.relink p).names = e.names := (upToLinks_relink e p).names_eq

@[simp]
theorem names_markCell (p : Position) : (e.markCell p).names = e.names := by
  unfold markCell
  split <;> rfl

@[simp]
theorem names_relinkAll (ps : List Position) : (e.relinkAll ps).names = e.names :=
  foldl_unchanged (f := names) names_relink ps e

@[simp]
theorem names_markDirty (seeds : List Position) : (e.markDirty seeds).names = e.names :=
  foldl_unchanged (f := names) names_markCell _ e

@[simp]
theorem names_take (p : Position) : (e.take p).names = e.names := by
  unfold take
  split <;> rfl

@[simp]
theorem names_store (p : Position) (c : Cell) : (e.store p c).names = e.names := rfl

@[simp]
theorem names_readLoaded (p : Position) : (e.readLoaded p).names = e.names := by
  unfold readLoaded
  split
  · exact names_relink e p
  · split
    · rfl
    · exact names_relink _ p

@[simp]
theorem names_readAllLoaded : e.readAllLoaded.names = e.names := by
  unfold readAllLoaded
  dsimp only
  split
  · rfl
  · rw [names_markDirty]
    exact foldl_unchanged (f := names) names_readLoaded _ _

@[simp]
theorem names_recompute (scope : PassScope) : (e.recompute scope).1.names = e.names := names_readAllLoaded e

@[simp]
theorem names_afterEdit : e.afterEdit.names = e.names := by
  unfold afterEdit
  split
  · exact names_recompute e .dirty
  · rfl

/-- Texts are replaced in cells. -/
@[simp]
theorem names_reworded (edits : List (Position × String)) :
    (edits.foldl (fun e entry => (e.replaceFormula entry.1 entry.2).relink entry.1) e).names = e.names := by
  induction edits generalizing e with
  | nil => rfl
  | cons entry edits ih =>
    rw [List.foldl_cons, ih, names_relink]
    rfl

@[simp]
theorem names_emptyCell (p : Position) : (e.emptyCell p).names = e.names := by
  unfold emptyCell
  split <;> simp

@[simp]
theorem names_putValue (p : Position) (v : Value) : (e.putValue p v).names = e.names := by
  unfold putValue
  split <;> simp

@[simp]
theorem names_putFormula (p : Position) (text : String) : (e.putFormula p text).names = e.names := by
  simp [putFormula]

end Parts

/-- **A call that does not concern named areas leaves them alone.** -/
theorem names_after (e : Engine) {c : Call} (hc : ¬c.Areas) : (e.after c).names = e.names := by
  cases c with
  | defineName name sheet rect => exact absurd trivial hc
  | removeName name => exact absurd trivial hc
  | removeSheet sheet => exact absurd trivial hc
  | editLines sheet d => exact absurd trivial hc
  | addSheet name =>
    simp only [after, reply, Reply.forget, addSheet]
    cases e.workbook.addSheet name with
    | error problem => rfl
    | ok added => rw [perform_ok, names_afterEdit, relinkUnresolved_eq, names_markDirty, names_relinkAll]
  | renameSheet sheet name =>
    simp only [after, reply, renameSheet, edit]
    cases e.workbook.renameSheet sheet name with
    | error problem => rfl
    | ok renamed =>
      rw [perform_ok]
      dsimp only
      split
      · rfl
      · rw [names_afterEdit, names_markDirty, names_relinkAll, names_reworded]
  | setFormula sheet a text =>
    refine perform_keeps (P := fun e' => e'.names = e.names) rfl fun p _ => ?_
    dsimp only
    split <;> simp
  | setValue sheet a v => exact perform_keeps (P := fun e' => e'.names = e.names) rfl fun p _ => by simp
  | clearCell sheet a => exact perform_keeps (P := fun e' => e'.names = e.names) rfl fun p _ => by simp
  | loadCell sheet a saved =>
    refine perform_keeps (P := fun e' => e'.names = e.names) rfl fun p _ => ?_
    dsimp only
    split
    · simp [loadFormula]
    · split <;> simp [loadConstant]
    · simp
  | mergeCells sheet rect =>
    exact perform_keeps (P := fun e' => e'.names = e.names) rfl fun s _ => by simp [replaceMerges]
  | unmergeCells sheet rect =>
    refine perform_keeps (P := fun e' => e'.names = e.names) rfl fun s _ => ?_
    split <;> simp [replaceMerges]
  | recalculate scope => exact perform_keeps (P := fun e' => e'.names = e.names) rfl fun _ _ => by simp
  | evaluateCell sheet a => exact perform_keeps (P := fun e' => e'.names = e.names) rfl fun p _ => by simp
  | buildDisplays => rfl
  | listen => rfl
  | unlisten => rfl
  | collect => rfl

/-! ### Names after a call -/

/-- A sheet stays until it is removed. -/
theorem contains_after {e : Engine} (hw : e.workbook.WellFormed) {c : Call} {id : SheetId}
    (hc : c ≠ .removeSheet id) (h : e.workbook.contains id = true) : (e.after c).workbook.contains id = true := by
  cases c with
  | addSheet name =>
    rw [(sameFrame_addSheet e name).contains_eq]
    exact Workbook.contains_after hw (by simp) h
  | removeSheet sheet =>
    rw [(sameFrame_removeSheet e sheet).contains_eq]
    exact Workbook.contains_after hw (fun heq => hc (by cases heq; rfl)) h
  | renameSheet sheet name =>
    rw [(sameFrame_renameSheet e sheet name).contains_eq]
    exact Workbook.contains_after hw (by simp) h
  | _ => rwa [(sameNames_after e (by simp [Call.Names])).contains_eq]

section NamesInOrder

variable {e : Engine} (h : e.Consistent) (hcount : e.settings.IsCountable)
include h hcount

/-- A name stays in order when it keeps its area. -/
theorem NameInOrder.after {key : String} {area : NamedArea} (hname : e.NameInOrder key area) {c : Call}
    (hc : c ≠ .removeSheet area.sheet) : (e.after c).NameInOrder key area where
  plain := hname.plain
  key_eq := hname.key_eq
  live := contains_after h.wellFormed hc hname.live
  normal := hname.normal
  fits := by
    unfold Engine.fits
    rw [(keeps_after h hcount c).settings_eq]
    exact hname.fits

variable (hnames : e.NamesInOrder)
include hnames

theorem namesInOrder_defineName (name : String) (sheet : SheetId) (rect : Rect) :
    (e.after (.defineName name sheet rect)).NamesInOrder := by
  intro key area harea
  have hafter : e.NameInOrder key area → (e.after (.defineName name sheet rect)).NameInOrder key area :=
    fun hname => hname.after h hcount (by simp)
  simp only [Engine.after, reply, defineName, edit] at harea
  cases hdefined : e.definition name sheet rect with
  | error problem =>
    rw [hdefined, perform_error] at harea
    exact hafter (hnames key area harea)
  | ok names =>
    obtain ⟨hthere, hfits, hplain, rfl⟩ := definition_eq_ok hdefined
    rw [hdefined, perform_ok] at harea
    simp only [refreshName, names_afterEdit, names_markDirty, names_relinkAll] at harea
    rw [Std.TreeMap.getElem?_insert] at harea
    split at harea
    · next hkey =>
      cases harea
      have hnormal := And.intro rect.left_le_right rect.top_le_bottom
      exact hafter ⟨hplain, (Std.compare_eq_iff_eq.mp hkey).symm, hthere, hnormal, hfits⟩
    · exact hafter (hnames key area harea)

theorem namesInOrder_removeName (name : String) : (e.after (.removeName name)).NamesInOrder := by
  intro key area harea
  refine NameInOrder.after h hcount (hnames key area ?_) (by simp)
  simp only [Engine.after, reply, removeName] at harea
  split at harea
  · exact harea
  · simp only [refreshName, names_afterEdit, names_markDirty, names_relinkAll] at harea
    rw [NamedAreas.erase, Std.TreeMap.getElem?_erase] at harea
    split at harea
    · cases harea
    · exact harea

/-- The names on a sheet go with it. -/
theorem namesInOrder_removeSheet (sheet : SheetId) : (e.after (.removeSheet sheet)).NamesInOrder := by
  intro key area harea
  cases hremove : e.workbook.removeSheet sheet with
  | error problem =>
    have hrefused : e.after (.removeSheet sheet) = e := by
      simp only [Engine.after, reply, removeSheet, edit]
      rw [hremove, perform_error]
    rw [hrefused] at harea ⊢
    exact hnames key area harea
  | ok removed =>
    have hleft : (e.after (.removeSheet sheet)).names = e.names.removeSheet sheet := by
      simp only [Engine.after, reply, removeSheet, edit]
      rw [hremove, perform_ok]
      simp
    rw [hleft, entries_removeSheet] at harea
    exact NameInOrder.after h hcount (hnames key area harea.1) fun heq => harea.2 (by cases heq; rfl)

/-- The areas on a sheet move with its lines. -/
theorem namesInOrder_editLines (sheet : SheetId) (d : LineEdit) :
    (e.after (.editLines sheet d)).NamesInOrder := by
  intro key area harea
  have hafter : e.NameInOrder key area → (e.after (.editLines sheet d)).NameInOrder key area :=
    fun hname => hname.after h hcount (by simp)
  simp only [Engine.after, reply, applyEdit, edit] at harea
  cases hchecked : e.editable sheet d with
  | error problem =>
    rw [hchecked, perform_error] at harea
    exact hafter (hnames key area harea)
  | ok s =>
    obtain ⟨hs, hpos, hline⟩ := editable_eq_ok hchecked
    have hd : e.IsEditable d := ⟨hpos, hline, hcount⟩
    rw [hchecked, perform_ok] at harea
    have hmoved : (e.shiftLines sheet d s).names = e.movedNames sheet d := by
      rw [shiftLines_eq, names_afterEdit, names_markDirty, names_relinkAll, (shifted_spec h hs _ _).names_eq]
    simp only [hmoved] at harea
    rw [movedNames, NamedAreas.entries_adjust] at harea
    obtain ⟨old, hold, hmoved⟩ := Option.bind_eq_some_iff.mp harea
    have hname := hnames key old hold
    unfold NamedAreas.moved at hmoved
    split at hmoved
    · obtain ⟨rect, himage, rfl⟩ := Option.map_eq_some_iff.mp hmoved
      have hfits := LineEdit.isWithin_rectImage? hd.pos hd.line_le_lastLine hname.fits himage
      exact hafter ⟨hname.plain, hname.key_eq, hname.live, ⟨rect.left_le_right, rect.top_le_bottom⟩, hfits⟩
    · cases hmoved
      exact hafter hname

/-- **Names that are in order are in order after a call.** -/
theorem namesInOrder_after (c : Call) : (e.after c).NamesInOrder := by
  by_cases hc : c.Areas
  · cases c with
    | defineName name sheet rect => exact namesInOrder_defineName h hcount hnames name sheet rect
    | removeName name => exact namesInOrder_removeName h hcount hnames name
    | removeSheet sheet => exact namesInOrder_removeSheet h hcount hnames sheet
    | editLines sheet d => exact namesInOrder_editLines h hcount hnames sheet d
    | _ => exact absurd hc (by simp [Call.Areas])
  · intro key area harea
    rw [names_after e hc] at harea
    exact NameInOrder.after h hcount (hnames key area harea) fun heq => hc (by rw [heq]; trivial)

end NamesInOrder

/-- **In a reachable engine all names are in order**, on a grid of any size. -/
theorem Reachable.namesInOrder {library : Library} {e : Engine} (h : Reachable library e) : e.NamesInOrder := by
  induction h with
  | start settings _ =>
    intro key area harea
    cases harea
  | call c h ih => exact namesInOrder_after h.consistent (keeps_of_reachable h).2.1 ih c

/-- **In a reachable engine all merged regions and all names are in order**, on a grid with room. -/
theorem Reachable.areasInOrder {library : Library} {e : Engine} (h : Reachable library e)
    (hroomy : e.settings.IsRoomy) : e.AreasInOrder where
  merges id s hs := by
    have hplaced := h.everyMerge id s hs
    have hapart := h.consistent.apart hroomy id s hs
    exact {
      normal := fun m _ => ⟨m.left_le_right, m.top_le_bottom⟩
      within := fun m hm => (hplaced m hm).2
      spread := fun m hm => (hplaced m hm).1
      apart := hapart
      unique := hapart.unique
      isObscured_perm := fun merges hperm => hapart.hides_perm hperm }
  names := h.namesInOrder

/-- Calls that merge and name cells of two sheets, insert and delete lines through them, and remove one of
the sheets. -/
def movedAreas : List Call :=
  [.addSheet "S", .addSheet "T", .mergeCells firstSheet (.span 2 2 3 4), .mergeCells firstSheet (.span 4 2 4 9),
    .mergeCells firstSheet (.span 1 4 2 6), .mergeCells firstSheet (.span 1 5 1 9),
    .defineName "Total" firstSheet (.span 2 3 4 5), .defineName "Gone" ⟨1, 0⟩ (.single 1 1),
    .editLines firstSheet ⟨.rows, .insertion, 3, 2⟩, .editLines firstSheet ⟨.columns, .deletion, 3, 1⟩,
    .removeSheet ⟨1, 0⟩]

/-- Three of the regions were merged, and one of the names is left. -/
theorem areasInOrder_movedAreas :
    Reachable .standard ((start {} .standard).run movedAreas) ∧
      ((start {} .standard).run movedAreas).settings.IsRoomy ∧
      ((((start {} .standard).run movedAreas).workbook.sheet? firstSheet).map Sheet.merges) =
        some [.span 2 2 2 6, .span 3 2 3 11, .span 1 7 1 11] ∧
      ((start {} .standard).run movedAreas).names.toList = [⟨"Total", firstSheet, .span 2 5 3 7⟩] ∧
      ((start {} .standard).run movedAreas).AreasInOrder := by
  have hreachable : Reachable .standard ((start {} .standard).run movedAreas) :=
    (Reachable.start {} ⟨by decide, by decide⟩).run movedAreas
  have hroomy : ((start {} .standard).run movedAreas).settings.IsRoomy := by
    constructor <;> decide +kernel
  exact ⟨hreachable, hroomy, by decide +kernel, by decide +kernel, hreachable.areasInOrder hroomy⟩

/-! ### Grids without room -/

/-- **Without room on the grid merged regions need not be in order.** Of the two regions of `heldMerge`, the
first is moved to the last row that can be counted, where the other one is, and both have a cell there. -/
theorem not_areasInOrder_heldMerge :
    ¬((start (fullGrid .rows) .standard).run (heldMerge.take 4)).AreasInOrder := by
  intro h
  have hoverlap : (((start (fullGrid .rows) .standard).run (heldMerge.take 4)).workbook.sheet? firstSheet).any
      (fun s => s.merges.all fun m => m.contains 2 lastLine) = true := by decide +kernel
  have hboth : (((start (fullGrid .rows) .standard).run (heldMerge.take 4)).workbook.sheet? firstSheet).map
      (fun s => s.merges.length) = some 2 := by decide +kernel
  obtain ⟨s, hs, hall⟩ := (Option.any_eq_true _ _).mp hoverlap
  have hone := (h.merges firstSheet s hs).unique ⟨lastLine, 2⟩
  rw [List.filter_eq_self.mpr (List.all_eq_true.mp hall)] at hone
  rw [hs] at hboth
  have htwo : s.merges.length = 2 := Option.some.inj hboth
  omega

end Engine

end Spreadsheet
