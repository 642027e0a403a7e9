import Spreadsheet.Proofs.Adjusting
import Spreadsheet.Proofs.Literals
import Spreadsheet.Proofs.Reloading
import Spreadsheet.Proofs.Renaming
import Spreadsheet.Proofs.Thinning

/-!
# Storing: what can be saved and told apart

A cell is refused to a caller who asks for it outside the grid, and a loader takes a text for a formula if an
equals sign opens it. So cells can be saved, and their formulas loaded, if nothing else is ever stored
(`Engine.IsSavable`):

* `isFormulaText_of_editReferences` — an edit of references keeps the equals sign, in any locale;
* `isSavable_after` — every call keeps all entries on the grid and all formulas marked as such;
* `Reachable.isSavable` — so they are after any calls;
* `Reachable.saveCell_eq`, `Reachable.saveSheet_eq` — and every stored cell can be saved, alone or with its sheet.
-/

namespace Spreadsheet

open Grid

theorem Engine.isFormulaText_iff {text : String} :
    Engine.isFormulaText text = true ↔ ∃ cs, text.toList = '=' :: cs := by
  unfold Engine.isFormulaText
  split
  · next cs htext => exact ⟨fun _ => ⟨cs, htext⟩, fun _ => rfl⟩
  · next hother => exact ⟨nofun, fun ⟨cs, htext⟩ => absurd htext (hother cs)⟩

/-- The text of an entry opens with an equals sign if it is a formula, so that it is taken for one when it is
loaded. -/
def Entry.IsSavable (x : Entry) : Prop := ∀ text, x.formulaText? = some text → Engine.isFormulaText text = true

theorem Entry.isSavable_constant (v : Value) : (Entry.constant v).IsSavable := nofun

theorem Entry.isSavable_formula {text : String} (h : Engine.isFormulaText text = true) :
    (Entry.formula text).IsSavable := by
  rintro _ ⟨⟩
  exact h

theorem Entry.IsSavable.reworded {x : Entry} (h : x.IsSavable) {text : String}
    (htext : Engine.isFormulaText text = true) : (x.reworded text).IsSavable := by
  cases x with
  | constant v => exact h
  | formula _ => exact isSavable_formula htext

/-! ### Workbooks -/

/-- Every cell of a workbook lies on the grid, and opens with an equals sign if it is a formula. -/
def Workbook.IsSavable (columns rows : Nat) (w : Workbook) : Prop :=
  ∀ p c, w.cell? p = some c → p.address.isWithin columns rows = true ∧ c.entry.IsSavable

namespace Workbook.IsSavable

variable {columns rows : Nat} {w w' : Workbook} (h : w.IsSavable columns rows)
include h

theorem of_sameEntries (hsame : w'.SameEntries w) : w'.IsSavable columns rows := by
  intro p c' hc'
  have hentry := hsame.entry_eq p
  rw [hc'] at hentry
  obtain ⟨c, hc, heq⟩ := Option.map_eq_some_iff.mp hentry.symm
  rw [← heq]
  exact h p c hc

theorem modifyCell (p : Position) {change : Cell → Cell}
    (hchange : ∀ c, c.entry.IsSavable → (change c).entry.IsSavable) :
    (w.modifyCell p change).IsSavable columns rows :=
  Workbook.every_modifyCell h p fun c _ ⟨hin, hentry⟩ => ⟨hin, hchange c hentry⟩

theorem insertCell {p : Position} (hin : p.address.isWithin columns rows = true) {c : Cell}
    (hc : c.entry.IsSavable) : (w.insertCell p c).IsSavable columns rows :=
  Workbook.every_insertCell h ⟨hin, hc⟩

end Workbook.IsSavable

/-! ### Edited formulas -/

/-- **An edit of references keeps the equals sign of a formula**, in any locale, whether or not the formula can be
read. -/
theorem isFormulaText_of_editReferences {l : Locale} {edit : Reference → Option String} {text new : String}
    (h : editReferences l text edit = .ok (some new)) : Engine.isFormulaText new = true := by
  obtain ⟨cs, ts, rfl, htokens⟩ := exists_of_editReferences h
  obtain ⟨last, hrun, rfl⟩ := exists_run_of_tokenize htokens
  obtain ⟨ws, hspells, hsources⟩ := Lexer.spells_of_run hrun
  rw [hspells.tokens_eq] at htokens
  rw [editReferences_of_words htokens hsources] at h
  split at h
  · cases h
  · cases h
    exact Engine.isFormulaText_iff.mpr ⟨_, String.toList_ofList⟩

/-- The image of a position on the grid is on the grid. -/
theorem LineEdit.isWithin_positionImage? {d : LineEdit} {columns rows : Nat} {id : SheetId} {p q : Position}
    (hpos : 1 ≤ d.line) (hp : p.address.isWithin columns rows = true)
    (hq : d.positionImage? (d.along columns rows) id p = some q) : q.address.isWithin columns rows = true := by
  obtain ⟨-, himage⟩ := positionImage?_eq_some.mp hq
  split at himage
  · obtain ⟨⟨hline, -⟩, hcross⟩ := (isWithin_address_iff d _ _ _).mp hp
    obtain ⟨hmoved, hle⟩ := image?_eq_some.mp himage.1
    refine (isWithin_address_iff d _ _ _).mpr ⟨⟨one_le_of_moved? hpos hline hmoved, hle⟩, ?_⟩
    rwa [himage.2]
  · rw [himage]
    exact hp

namespace Engine

/-! ### The parts of a call -/

/-- Every cell of an engine can be saved, and its text shows whether it is a formula. -/
def IsSavable (e : Engine) : Prop := e.workbook.IsSavable e.settings.columns e.settings.rows

section Parts

variable {e : Engine}

theorem isSavable_of_sameEntries (h : e.IsSavable) {e' : Engine} (hsame : e'.SameEntries e) : e'.IsSavable := by
  unfold IsSavable
  rw [hsame.columns_eq, hsame.rows_eq]
  exact Workbook.IsSavable.of_sameEntries h hsame.workbook

/-- Of a cell it matters only where it lies and what was entered. What follows an edit enters nothing. -/
theorem isCellwise_isSavable : IsCellwise IsSavable where
  thinned h hthins := by
    intro p c hc
    rw [hthins.settings_eq]
    exact h p c (hthins.cell? p c hc)
  relinked h ps seeds := isSavable_of_sameEntries h (sameEntries_relinked _ ps seeds)

theorem isSavable_store (h : e.IsSavable) {p : Position}
    (hin : p.address.isWithin e.settings.columns e.settings.rows = true) {c : Cell} (hc : c.entry.IsSavable) : ((e.take p).store p c).IsSavable := by
  have hthins := thins_take e p
  rw [← hthins.settings_eq] at hin
  exact Workbook.IsSavable.insertCell (isCellwise_isSavable.thinned h hthins) hin hc

theorem isSavable_replaceFormula (h : e.IsSavable) (p : Position) {text : String} (htext : isFormulaText text = true) :
    (e.replaceFormula p text).IsSavable := by
  refine Workbook.IsSavable.modifyCell h p fun c hc => ?_
  rw [Cell.entry_replaceFormula]
  exact hc.reworded htext

/-- The new texts of an edit are formulas. -/
theorem isFormulaText_of_mem_editedFormulas {edit : Position → Reference → Option String} {p : Position}
    {text : String} (hmem : (p, text) ∈ e.editedFormulas edit) : isFormulaText text = true := by
  obtain ⟨entry, -, hnew⟩ := List.mem_filterMap.mp hmem
  dsimp only at hnew
  split at hnew
  · next new hedited =>
    cases hnew
    exact isFormulaText_of_editReferences hedited
  · cases hnew

end Parts

/-! ### Calls on cells -/

theorem isWithin_of_locate {e : Engine} {sheet : SheetId} {a : Address} {p : Position}
    (h : e.locate sheet a = .ok p) : p.address.isWithin e.settings.columns e.settings.rows = true := by
  unfold locate at h
  split at h
  · cases h
  · split at h
    · next hin =>
      cases h
      exact hin
    · cases h

section Cells

variable {e : Engine} (h : e.IsSavable) {p : Position}
  (hin : p.address.isWithin e.settings.columns e.settings.rows = true)
include h hin

theorem isSavable_putValue (v : Value) : (e.putValue p v).IsSavable := by
  unfold putValue
  split
  · exact isCellwise_isSavable.emptyCell h p
  · refine isCellwise_isSavable.marked ?_ [p]
    exact isSavable_store h hin (Entry.isSavable_constant v)

theorem isSavable_putFormula {text : String} (htext : isFormulaText text = true) :
    (e.putFormula p text).IsSavable := by
  unfold putFormula
  refine isCellwise_isSavable.relinked (isSavable_store h hin ?_) [p] [p]
  cases e.workbook.cell? p <;> exact Entry.isSavable_formula htext

theorem isSavable_loadConstant (v : Value) : (e.loadConstant p v).IsSavable :=
  isSavable_of_sameEntries (isSavable_store h hin (c := .constant v) (Entry.isSavable_constant v))
    (sameEntries_markDirty _ [p])

theorem isSavable_loadFormula {text : String} (htext : isFormulaText text = true) (v : Value) :
    (e.loadFormula p text v).IsSavable :=
  isSavable_store h hin (Entry.isSavable_formula htext)

omit hin in
theorem isSavable_loadCell (sheet : SheetId) (a : Address) (saved : SavedCell) :
    (e.loadCell sheet a saved).engine.IsSavable := by
  refine perform_keeps h fun p hp => ?_
  have hin := isWithin_of_locate hp
  dsimp only
  split
  · next rest htext => exact isSavable_loadFormula h hin (isFormulaText_iff.mpr ⟨rest, htext⟩) saved.value
  · split
    · exact isSavable_loadConstant h hin _
    · exact isSavable_loadConstant h hin _
  · exact isCellwise_isSavable.emptyCell h p

end Cells

/-! ### Calls that rewrite formulas -/

section Rewriting

variable {e : Engine} (h : e.IsSavable)
include h

theorem isSavable_renameSheet (id : SheetId) (name : String) : (e.renameSheet id name).engine.IsSavable := by
  refine perform_keeps h fun ⟨w', old⟩ hrename => ?_
  have hrenamed : ({ e with workbook := w' } : Engine).IsSavable :=
    isCellwise_isSavable.thinned h (thins_of_cells (cell?_renameSheet hrename))
  dsimp only
  split
  · exact hrenamed
  · refine isCellwise_isSavable.relinked (foldl_keeps (P := IsSavable) (fun e edit hmem he => ?_) hrenamed) _ _
    have htext := isFormulaText_of_mem_editedFormulas hmem
    exact isSavable_of_sameEntries (isSavable_replaceFormula he edit.1 htext) (sameEntries_relink _ edit.1)

theorem isSavable_applyEdit (id : SheetId) (d : LineEdit) : (e.applyEdit id d).engine.IsSavable := by
  refine perform_keeps h fun sheet hchecked => ?_
  obtain ⟨hs, hpos, -⟩ := editable_eq_ok hchecked
  rw [shiftLines_eq]
  refine isCellwise_isSavable.relinked ?_ _ _
  let e' : Engine := { e with workbook := e.movedWorkbook id d sheet, names := e.movedNames id d }
  have hmoved : e'.IsSavable := by
    intro q c hc
    obtain ⟨p, himage, hcell⟩ := source_movedWorkbook hs hc
    obtain ⟨hin, hentry⟩ := h p c hcell
    unfold image at himage
    rw [IsEditable.limit_eq_along] at himage
    exact ⟨LineEdit.isWithin_positionImage? hpos hin himage, hentry⟩
  refine foldl_keeps (P := IsSavable) (s := e') (fun e edit hmem he => ?_) hmoved
  obtain ⟨⟨p, text⟩, hedited, hedit⟩ := List.mem_filterMap.mp hmem
  obtain ⟨q, -, rfl⟩ := Option.map_eq_some_iff.mp hedit
  exact isSavable_replaceFormula he q (isFormulaText_of_mem_editedFormulas hedited)

end Rewriting

/-! ### All calls -/

/-- **Every call keeps all cells on the grid and all formulas marked as such.** -/
theorem isSavable_after {e : Engine} (h : e.IsSavable) (hw : e.workbook.WellFormed) (c : Call) :
    (e.after c).IsSavable := by
  by_cases hquiet : c.isEntry = false
  · exact isSavable_of_sameEntries h (sameEntries_of_not_isEntry e hquiet)
  cases c with
  | addSheet name =>
    rw [after_addSheet]
    exact isCellwise_isSavable.addSheet h hw name
  | removeSheet sheet => exact isCellwise_isSavable.removeSheet h sheet
  | renameSheet sheet name => exact isSavable_renameSheet h sheet name
  | setFormula sheet a text =>
    refine perform_keeps h fun p hp => ?_
    dsimp only
    split
    · next htext => exact isSavable_putFormula h (isWithin_of_locate hp) htext
    · exact isSavable_putValue h (isWithin_of_locate hp) _
  | setValue sheet a v => exact perform_keeps h fun p hp => isSavable_putValue h (isWithin_of_locate hp) v
  | clearCell sheet a => exact perform_keeps h fun p _ => isCellwise_isSavable.emptyCell h p
  | loadCell sheet a saved => exact isSavable_loadCell h sheet a saved
  | defineName name sheet rect => exact isCellwise_isSavable.defineName h name sheet rect
  | removeName name => exact isCellwise_isSavable.removeName h name
  | mergeCells sheet rect => exact isCellwise_isSavable.mergeCells h sheet rect
  | unmergeCells sheet rect => exact isCellwise_isSavable.unmergeCells h sheet rect
  | editLines sheet edit => exact isSavable_applyEdit h sheet edit
  | _ => exact absurd rfl hquiet

/-- **Whatever is stored after any calls can be saved.** -/
theorem Reachable.isSavable {library : Library} {e : Engine} (h : Reachable library e) : e.IsSavable := by
  induction h with
  | start settings _ =>
    intro p c hc
    rw [cell?_start] at hc
    cases hc
  | call c h ih => exact isSavable_after ih h.consistent.wellFormed c

/-- **Every stored cell is saved.** -/
theorem Reachable.saveCell_eq {library : Library} {e : Engine} (h : Reachable library e) {p : Position} {c : Cell}
    (hc : e.cell? p = some c) : e.saveCell p.sheet p.address = .ok (some (e.savedCell c)) := by
  obtain ⟨s, hs, -⟩ := Workbook.cell?_eq_some.mp hc
  have hsheet : e.workbook.contains p.sheet = true := Option.isSome_iff_exists.mpr ⟨s, hs⟩
  rw [saveCell, locate_of_contains hsheet (h.isSavable p c hc).1]
  show Except.ok ((e.cell? p).map e.savedCell) = _
  rw [hc, Option.map_some]

/-- Where every check passes, the list of the results is complete. -/
theorem mapM_eq_ok {ε α β : Type} {f : α → Except ε β} {g : α → β} {xs : List α} (h : ∀ x ∈ xs, f x = .ok (g x)) :
    xs.mapM f = .ok (xs.map g) := by
  induction xs with
  | nil => rfl
  | cons x xs ih =>
    obtain ⟨hx, hxs⟩ := List.forall_mem_cons.mp h
    rw [List.mapM_cons, hx, ih hxs]
    rfl

/-- **All stored cells of a sheet are saved**, in storage order. -/
theorem Reachable.saveSheet_eq {library : Library} {e : Engine} (h : Reachable library e) {id : SheetId} {s : Sheet}
    (hs : e.workbook.sheet? id = some s) :
    e.saveSheet id = .ok (s.toList.map fun entry => (entry.1.address, e.savedCell entry.2)) := by
  have hsheet : e.workbook.contains id = true := Option.isSome_iff_exists.mpr ⟨s, hs⟩
  unfold saveSheet Workbook.get
  rw [hs]
  refine mapM_eq_ok fun entry hentry => ?_
  have hc : e.workbook.cell? (entry.1.on id) = some entry.2 :=
    Workbook.cell?_eq_some.mpr ⟨s, hs, Std.TreeMap.mem_toList_iff_getElem?_eq_some.mp hentry⟩
  have hin : entry.1.address.isWithin e.settings.columns e.settings.rows = true := (h.isSavable _ _ hc).1
  dsimp only
  rw [locate_of_contains hsheet hin]
  rfl

end Engine

end Spreadsheet
