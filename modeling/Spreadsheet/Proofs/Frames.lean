import Spreadsheet.Proofs.Histories
import Spreadsheet.Proofs.Invariants
import Spreadsheet.Workbook.History

/-!
# Frames: the names of sheets and their merged regions

Most of what an engine does concerns cells only. The parts of every call leave the frame of the workbook alone,
the names of its sheets and their merged regions, and so do all calls but six (`sameFrame_after`). Of these,
three give sheets other regions and keep their names (`sameFrame_replaceMerges`, `sameFrame_shiftLines`), and
three make the like call on the workbook (`sameFrame_addSheet`, `sameFrame_removeSheet`,
`sameFrame_renameSheet`).

What holds of regions that may be merged, and of what lines leave of a region, holds of every region
(`everyMerge_after`). A region is not merged unless it lies on the grid and has several cells, and one that
lines leave with a single cell is dropped. So in a reachable engine every region has several cells of the grid
(`Reachable.everyMerge`).
-/

namespace Spreadsheet

open Grid

/-- A call that concerns the names of sheets. -/
def Call.Names : Call → Prop
  | .addSheet _ | .removeSheet _ | .renameSheet _ _ => True
  | _ => False

/-- A call that concerns the merged regions of a sheet. -/
def Call.Regions : Call → Prop
  | .mergeCells _ _ | .unmergeCells _ _ | .editLines _ _ => True
  | _ => False

namespace Workbook

/-- Something holds of every merged region. -/
def EveryMerge (P : Rect → Prop) (w : Workbook) : Prop := ∀ id s, w.sheet? id = some s → ∀ m ∈ s.merges, P m

/-- Every merged region has several cells. -/
def MergesSpread (w : Workbook) : Prop := ∀ id s, w.sheet? id = some s → ∀ m ∈ s.merges, m.isSingle = false

variable {P : Rect → Prop}

theorem SameFrame.everyMerge {w w' : Workbook} (h : w'.SameFrame w) (hevery : w.EveryMerge P) :
    w'.EveryMerge P := by
  intro id s' hs' m hm
  obtain ⟨s, hs, heq⟩ := Engine.merges_eq_of_frame h hs'
  exact hevery id s hs m (heq ▸ hm)

/-- The regions of one sheet change. -/
theorem EveryMerge.modifySheet {w : Workbook} (h : w.EveryMerge P) {id : SheetId} {f : Sheet → Sheet}
    (hf : ∀ s, w.sheet? id = some s → ∀ m ∈ (f s).merges, P m) : (w.modifySheet id f).EveryMerge P := by
  intro id' s' hs'
  rw [sheet?_modifySheet] at hs'
  split at hs'
  · obtain ⟨s, hs, rfl⟩ := Option.map_eq_some_iff.mp hs'
    exact hf s hs
  · exact h id' s' hs'

/-- Sheets come without regions, go with them, and keep them under another name. -/
theorem EveryMerge.after {w : Workbook} (h : w.EveryMerge P) (hw : w.WellFormed) (c : SheetCall) :
    (w.after c).EveryMerge P := by
  refine after_keeps h (fun name w' id hadd => ?_) (fun id w' sheet hremove => ?_)
    (fun id name w' old hrename => ?_) c
  · intro id' s hs m hm
    rcases (addSheet_spec hw hadd).2.2 id' with heq | ⟨-, -, hnew⟩
    · exact h id' s (heq ▸ hs) m hm
    · rw [hnew] at hs
      cases hs
      cases hm
  · intro id' s hs
    rw [(removeSheet_spec hremove).2.2] at hs
    split at hs
    · cases hs
    · exact h id' s hs
  · obtain ⟨-, -, rfl⟩ := renameSheet_spec hrename
    exact h.modifySheet fun s hs => h id s hs

end Workbook

namespace Engine

/-! ### The parts of a call leave frames alone -/

section Parts

variable {w : Workbook} {e : Engine} (h : e.workbook.SameFrame w)
include h

theorem sameFrame_relink (p : Position) : (e.relink p).workbook.SameFrame w :=
  (upToLinks_relink e p).frame.trans h

theorem sameFrame_markCell (p : Position) : (e.markCell p).workbook.SameFrame w :=
  (markedBy_markCell e p).frame.trans h

theorem sameFrame_take (p : Position) : (e.take p).workbook.SameFrame w := by
  unfold take
  split
  · exact (Workbook.sameFrame_eraseCell _ _).trans h
  · exact h

theorem sameFrame_store (p : Position) (c : Cell) : (e.store p c).workbook.SameFrame w :=
  (Workbook.sameFrame_insertCell _ _ _).trans h

theorem sameFrame_replaceFormula (p : Position) (text : String) :
    (e.replaceFormula p text).workbook.SameFrame w :=
  (Workbook.sameFrame_modifyCell _ _ _).trans h

theorem sameFrame_readAllLoaded : e.readAllLoaded.workbook.SameFrame w := by
  unfold readAllLoaded
  dsimp only
  split
  · exact h
  · refine markDirty_keeps (P := fun e => e.workbook.SameFrame w) (fun _ p he => sameFrame_markCell he p) ?_ _
    exact (readFrom_foldl { e with unread := {} } _).frame.trans h

/-- Texts are replaced in cells. -/
theorem sameFrame_reworded (edits : List (Position × String)) :
    (edits.foldl (fun e entry => (e.replaceFormula entry.1 entry.2).relink entry.1) e).workbook.SameFrame w :=
  foldl_keeps (P := fun e : Engine => e.workbook.SameFrame w)
    (fun _ entry _ he => sameFrame_relink (sameFrame_replaceFormula he entry.1 entry.2) entry.1) h

/-- A pass changes values and marks only. -/
theorem sameFrame_recompute (scope : PassScope) : (e.recompute scope).1.workbook.SameFrame w := by
  have hkept : Pass.Kept e.readAllLoaded.surroundings fun s => s.workbook.SameFrame w := by
    refine Pass.Kept.of_seen (Q := fun w' _ => w'.SameFrame w) (fun w' _ p hw => ?_) (fun w' _ p hw => ?_)
      fun s f hs => ?_
    · exact (Workbook.sameFrame_modifyCell _ _ _).trans hw
    · exact (Workbook.sameFrame_modifyCell _ _ _).trans hw
    · exact (Workbook.sameFrame_modifyCell _ _ _).trans hs
  exact hkept.run (sameFrame_readAllLoaded h) scope

theorem sameFrame_afterEdit : e.afterEdit.workbook.SameFrame w := by
  unfold afterEdit
  split
  · exact sameFrame_recompute h .dirty
  · exact h

theorem sameFrame_marked (seeds : List Position) : (e.markDirty seeds).afterEdit.workbook.SameFrame w :=
  sameFrame_afterEdit
    (markDirty_keeps (P := fun e => e.workbook.SameFrame w) (fun _ p he => sameFrame_markCell he p) h seeds)

/-- The two ends of every edit leave frames alone. -/
theorem sameFrame_relinked (ps seeds : List Position) :
    ((e.relinkAll ps).markDirty seeds).afterEdit.workbook.SameFrame w :=
  sameFrame_marked
    (relinkAll_keeps (P := fun e => e.workbook.SameFrame w) (fun _ p he => sameFrame_relink he p) h ps) seeds

theorem sameFrame_emptyCell (p : Position) : (e.emptyCell p).workbook.SameFrame w := by
  unfold emptyCell
  split
  · exact h
  · refine sameFrame_marked ?_ _
    exact sameFrame_take h p

theorem sameFrame_putValue (p : Position) (v : Value) : (e.putValue p v).workbook.SameFrame w := by
  unfold putValue
  split
  · exact sameFrame_emptyCell h p
  · refine sameFrame_marked (sameFrame_store ?_ p _) _
    exact sameFrame_take h p

theorem sameFrame_putFormula (p : Position) (text : String) : (e.putFormula p text).workbook.SameFrame w :=
  sameFrame_marked (sameFrame_relink (sameFrame_store (sameFrame_take h p) p _) p) _

theorem sameFrame_loadCell (sheet : SheetId) (a : Address) (saved : SavedCell) :
    (e.loadCell sheet a saved).engine.workbook.SameFrame w := by
  have hconstant : ∀ p v, (e.loadConstant p v).workbook.SameFrame w := fun p v =>
    markDirty_keeps (P := fun e => e.workbook.SameFrame w) (fun _ p he => sameFrame_markCell he p)
      (sameFrame_store (sameFrame_take h p) p _) [p]
  refine perform_keeps (P := fun e => e.workbook.SameFrame w) h fun p _ => ?_
  dsimp only
  split
  · exact sameFrame_store (sameFrame_take h p) p _
  · split
    · exact hconstant p _
    · exact hconstant p _
  · exact sameFrame_emptyCell h p

end Parts

/-! ### Calls -/

theorem sameFrame_replaceMerges (e : Engine) (id : SheetId) (rect : Rect) (s : Sheet) :
    (e.replaceMerges id rect s).workbook.SameFrame (e.workbook.modifySheet id fun _ => s) :=
  sameFrame_marked (e := { e with workbook := e.workbook.modifySheet id fun _ => s })
    (Workbook.SameFrame.refl _) _

/-- When lines are edited, a sheet keeps its name and has its regions moved. -/
theorem sameFrame_shiftLines (e : Engine) (id : SheetId) (d : LineEdit) (s : Sheet) :
    (e.shiftLines id d s).workbook.SameFrame (e.movedWorkbook id d s) := by
  rw [shiftLines_eq]
  refine sameFrame_relinked ?_ _ _
  exact foldl_keeps (P := fun e' : Engine => e'.workbook.SameFrame (e.movedWorkbook id d s))
    (fun _ entry _ he => sameFrame_replaceFormula he entry.1 entry.2) (Workbook.SameFrame.refl _)

/-- **Every other call leaves the frame alone.** -/
theorem sameFrame_after (e : Engine) {c : Call} (hnames : ¬c.Names) (hregions : ¬c.Regions) :
    (e.after c).workbook.SameFrame e.workbook := by
  have h := Workbook.SameFrame.refl e.workbook
  cases c with
  | addSheet name => exact absurd trivial hnames
  | removeSheet sheet => exact absurd trivial hnames
  | renameSheet sheet name => exact absurd trivial hnames
  | mergeCells sheet rect => exact absurd trivial hregions
  | unmergeCells sheet rect => exact absurd trivial hregions
  | editLines sheet d => exact absurd trivial hregions
  | setFormula sheet a text =>
    refine perform_keeps (P := fun e' => e'.workbook.SameFrame e.workbook) h fun p _ => ?_
    dsimp only
    split
    · exact sameFrame_putFormula h p text
    · exact sameFrame_putValue h p _
  | setValue sheet a v =>
    exact perform_keeps (P := fun e' => e'.workbook.SameFrame e.workbook) h fun p _ => sameFrame_putValue h p v
  | clearCell sheet a =>
    exact perform_keeps (P := fun e' => e'.workbook.SameFrame e.workbook) h fun p _ => sameFrame_emptyCell h p
  | loadCell sheet a saved => exact sameFrame_loadCell h sheet a saved
  | defineName name sheet rect =>
    exact perform_keeps (P := fun e' => e'.workbook.SameFrame e.workbook) h fun names _ =>
      sameFrame_relinked (e := { e with names }) h _ _
  | removeName name =>
    show (e.removeName name).2.workbook.SameFrame e.workbook
    unfold removeName
    split
    · exact h
    · refine sameFrame_relinked ?_ _ _
      exact h
  | recalculate scope =>
    exact perform_keeps (P := fun e' => e'.workbook.SameFrame e.workbook) h fun _ _ => sameFrame_recompute h scope
  | evaluateCell sheet a =>
    exact perform_keeps (P := fun e' => e'.workbook.SameFrame e.workbook) h fun p _ =>
      sameFrame_recompute h (.cell p)
  | buildDisplays =>
    exact foldl_keeps (P := fun w : Workbook => w.SameFrame e.workbook)
      (fun _ p _ hw => (Workbook.sameFrame_modifyCell _ p _).trans hw) h
  | listen => exact h
  | unlisten => exact h
  | collect => exact h

/-! ### Calls that concern the names of sheets -/

/-- **A sheet comes as in the workbook alone**, frames aside nothing more. -/
theorem sameFrame_addSheet (e : Engine) (name : String) :
    (e.after (.addSheet name)).workbook.SameFrame (e.workbook.after (.add name)) := by
  simp only [after, reply, Reply.forget, addSheet, Workbook.after]
  cases e.workbook.addSheet name with
  | error problem => exact Workbook.SameFrame.refl _
  | ok added =>
    show ({ e with workbook := added.1 } : Engine).relinkUnresolved.afterEdit.workbook.SameFrame added.1
    rw [relinkUnresolved_eq]
    exact sameFrame_relinked (e := { e with workbook := added.1 }) (Workbook.SameFrame.refl _) _ _

/-- A sheet goes as in the workbook alone. -/
theorem sameFrame_removeSheet (e : Engine) (id : SheetId) :
    (e.after (.removeSheet id)).workbook.SameFrame (e.workbook.after (.remove id)) := by
  simp only [after, reply, removeSheet, Workbook.after]
  cases e.workbook.removeSheet id with
  | error problem => exact Workbook.SameFrame.refl _
  | ok removed =>
    exact sameFrame_relinked (e := e.withoutSheet id removed.2 removed.1) (Workbook.SameFrame.refl _) _ _

/-- A sheet gets another name as in the workbook alone. -/
theorem sameFrame_renameSheet (e : Engine) (id : SheetId) (name : String) :
    (e.after (.renameSheet id name)).workbook.SameFrame (e.workbook.after (.rename id name)) := by
  simp only [after, reply, renameSheet, Workbook.after]
  cases e.workbook.renameSheet id name with
  | error problem => exact Workbook.SameFrame.refl _
  | ok renamed =>
    simp only [edit, perform_ok]
    split
    · exact Workbook.SameFrame.refl _
    · exact sameFrame_relinked (sameFrame_reworded (Workbook.SameFrame.refl _) _) _ _

/-! ### What holds of every merged region -/

section EveryMerge

variable {P : Rect → Prop} {e : Engine} (h : e.workbook.EveryMerge P)
include h

theorem everyMerge_replaceMerges (id : SheetId) (rect : Rect) {s : Sheet} (hs : ∀ m ∈ s.merges, P m) :
    (e.replaceMerges id rect s).workbook.EveryMerge P :=
  (sameFrame_replaceMerges e id rect s).everyMerge (h.modifySheet fun _ _ => hs)

theorem everyMerge_mergeCells (id : SheetId) (rect : Rect)
    (hmerge : rect.isSingle = false → e.fits rect = true → P rect) :
    (e.mergeCells id rect).engine.workbook.EveryMerge P := by
  refine perform_keeps (P := fun e => e.workbook.EveryMerge P) h fun t ht => ?_
  obtain ⟨s, hs, hspread, -, rfl⟩ := merged_eq_ok ht
  refine everyMerge_replaceMerges h id rect fun m hm => ?_
  rcases List.mem_append.mp hm with hm | hm
  · exact h id s hs m hm
  · rw [List.mem_singleton.mp hm]
    exact hmerge hspread (fits_of_merged ht)

theorem everyMerge_unmergeCells (id : SheetId) (rect : Rect) :
    (e.unmergeCells id rect).engine.workbook.EveryMerge P := by
  refine perform_keeps (P := fun e => e.workbook.EveryMerge P) h fun s hget => ?_
  cases hremove : s.removeMerge rect with
  | none => exact h
  | some t =>
    refine everyMerge_replaceMerges h id rect fun m hm => ?_
    rw [removeMerge_eq_some hremove] at hm
    exact h id s (sheet?_of_get hget) m (List.mem_filter.mp hm).1

theorem everyMerge_editLines (hcount : e.settings.IsCountable) (id : SheetId) (d : LineEdit)
    (hedit : e.IsEditable d → ∀ m m', P m → d.rectImage? (e.limit d.axis) m = some m' → m'.isSingle = false →
      P m') :
    (e.after (.editLines id d)).workbook.EveryMerge P := by
  refine perform_keeps (P := fun e => e.workbook.EveryMerge P) h fun s hs => ?_
  obtain ⟨hfound, hpos, hline⟩ := editable_eq_ok hs
  refine (sameFrame_shiftLines e id d s).everyMerge (h.modifySheet fun _ _ m' hm' => ?_)
  obtain ⟨himage, hspread⟩ := List.mem_filter.mp hm'
  obtain ⟨m, hm, himage⟩ := List.mem_filterMap.mp himage
  exact hedit ⟨hpos, hline, hcount⟩ m m' (h id s hfound m hm) himage ((Bool.not_eq_true' _).mp hspread)

/-- **What holds of every region holds of every region after a call**, if it holds of the regions that may be
merged and of what lines leave of a region. -/
theorem everyMerge_after (hw : e.workbook.WellFormed) (hcount : e.settings.IsCountable)
    (hmerge : ∀ rect : Rect, rect.isSingle = false → e.fits rect = true → P rect)
    (hedit : ∀ d : LineEdit, e.IsEditable d → ∀ m m', P m → d.rectImage? (e.limit d.axis) m = some m' →
      m'.isSingle = false → P m')
    (c : Call) : (e.after c).workbook.EveryMerge P := by
  cases c with
  | addSheet name => exact (sameFrame_addSheet e name).everyMerge (h.after hw _)
  | removeSheet sheet => exact (sameFrame_removeSheet e sheet).everyMerge (h.after hw _)
  | renameSheet sheet name => exact (sameFrame_renameSheet e sheet name).everyMerge (h.after hw _)
  | mergeCells sheet rect => exact everyMerge_mergeCells h sheet rect (hmerge rect)
  | unmergeCells sheet rect => exact everyMerge_unmergeCells h sheet rect
  | editLines sheet d => exact everyMerge_editLines h hcount sheet d (hedit d)
  | _ => exact (sameFrame_after e (by simp [Call.Names]) (by simp [Call.Regions])).everyMerge h

end EveryMerge

/-- **In a reachable engine every merged region has several cells and lies on the grid.** -/
theorem Reachable.everyMerge {library : Library} {e : Engine} (h : Reachable library e) :
    e.workbook.EveryMerge fun m => m.isSingle = false ∧ e.fits m = true := by
  induction h with
  | start settings _ =>
    intro id s hs
    cases hs
  | @call e c h ih =>
    have hcount := (keeps_of_reachable h).2.1
    have hsettings := (keeps_after h.consistent hcount c).settings_eq
    unfold fits at ih ⊢
    rw [hsettings]
    refine everyMerge_after ih h.consistent.wellFormed hcount (fun rect hspread hfits => ⟨hspread, hfits⟩) ?_ c
    intro d hd m m' hm himage hspread
    exact ⟨hspread, LineEdit.isWithin_rectImage? hd.pos hd.line_le_lastLine hm.2 himage⟩

/-- **In a reachable engine every merged region has several cells.** -/
theorem Reachable.mergesSpread {library : Library} {e : Engine} (h : Reachable library e) :
    e.workbook.MergesSpread :=
  fun id s hs m hm => (h.everyMerge id s hs m hm).1

end Engine

end Spreadsheet
