import Mathlib
import Spreadsheet.Proofs.Histories
import Spreadsheet.Proofs.Invariants
import Spreadsheet.Proofs.Tiling

/-!
# Notifying: changes that are reported

A pass reports the cells whose value it changes and those that edits have changed since the pass before.
`Engine.Notes` is what is known of a position between two passes: it shows what it showed at the end of the
first one, or its change is pending.

* `notes_after` — every edit keeps that, but for edits of lines that drop a pending change;
* `noted_pass` — a pass keeps it, with what it has changed itself;
* `reported_run` — so after edits of which none drops the change at a position, the position lies in a
  region that the next pass reports, if it shows something else then;
* `not_reported_dropped` — a change that was dropped is not reported.

An edit of lines moves pending changes along with the cells, and adds every position on the affected lines
where a cell is stored before or afterwards. A cell that was emptied is stored no more: its change moves
away from the position where it happened (`Engine.drops`).
-/

namespace Spreadsheet

open Grid DependencyGraph

/-! ### Values that are the same -/

theorem Value.same_trans {u v w : Value} (h : u.same v = true) (h' : v.same w = true) :
    u.same w = true := by
  cases u <;> cases v <;> simp only [Value.same, Bool.false_eq_true] at h <;>
    cases w <;> simp only [Value.same, Bool.false_eq_true] at h' ⊢
  case number.number.number => exact PartialEquivBEq.trans h h'
  case date.date.date => exact PartialEquivBEq.trans h h'
  case time.time.time => exact PartialEquivBEq.trans h h'
  all_goals exact beq_iff_eq.mpr ((beq_iff_eq.mp h).trans (beq_iff_eq.mp h'))

theorem Cell.value_buildDisplay (c : Cell) : c.buildDisplay.value = c.value := rfl

/-! ### Values of a workbook -/

namespace Workbook

variable {w w' : Workbook} {p : Position}

theorem value_of_no_cell (h : w.cell? p = none) : w.value p = .empty := by
  rw [value_eq, h]
  rfl

theorem value_congr_cell (h : w'.cell? p = w.cell? p) : w'.value p = w.value p := by
  rw [value_eq, value_eq, h]

end Workbook

namespace Engine

/-! ### What is noted -/

/-- A position that showed a value still shows the same, or its change is pending. No pass is made on its
own. -/
structure Notes (v : Value) (p : Position) (e : Engine) : Prop where
  manual : e.settings.autoRecalculate = false
  noted : v.same (e.workbook.value p) = true ∨ p ∈ e.changes

section Parts

variable {v : Value} {p : Position} {e e' : Engine}

/-- Where neither the value nor the pending change goes, nothing is missed. -/
theorem Notes.of_quiet (h : Notes v p e) (hsettings : e'.settings = e.settings)
    (hvalue : e'.workbook.value p = e.workbook.value p) (hchanges : p ∈ e.changes → p ∈ e'.changes) :
    Notes v p e' := by
  refine ⟨hsettings ▸ h.manual, ?_⟩
  rw [hvalue]
  exact h.noted.imp_right hchanges

theorem Notes.relink (h : Notes v p e) (q : Position) : Notes v p (e.relink q) := by
  have hup := upToLinks_relink e q
  refine h.of_quiet hup.settings_eq (Workbook.value_congr (hup.core?_eq p)) fun hp => ?_
  rw [hup.rest_eq]
  exact hp

theorem Notes.markCell (h : Notes v p e) (q : Position) : Notes v p (e.markCell q) := by
  have hmarked := markedBy_markCell e q
  refine h.of_quiet hmarked.settings_eq (Workbook.value_congr (hmarked.core?_eq p)) fun hp => ?_
  rw [hmarked.rest_eq]
  exact hp

/-- Linking formulas again and marking cells changes no value. -/
theorem Notes.relinked (h : Notes v p e) (ps seeds : List Position) :
    Notes v p ((e.relinkAll ps).markDirty seeds).afterEdit := by
  have hmarked : Notes v p ((e.relinkAll ps).markDirty seeds) :=
    markDirty_keeps (fun _ q h => h.markCell q) (relinkAll_keeps (fun _ q h => h.relink q) h ps) seeds
  rw [afterEdit_of_manual hmarked.manual]
  exact hmarked

/-- The text of a formula is replaced and its value kept. -/
theorem Notes.replaceFormula (h : Notes v p e) (q : Position) (text : String) :
    Notes v p (e.replaceFormula q text) := by
  refine h.of_quiet rfl (Workbook.value_modifyCell (fun c => ?_) q) id
  unfold Cell.replaceFormula
  split <;> rfl

theorem take_quiet (e : Engine) (q : Position) :
    (e.take q).settings = e.settings ∧ (e.take q).changes = e.changes ∧
      (e.take q).workbook.cell? q = none ∧
      ∀ p, p ≠ q → (e.take q).workbook.cell? p = e.workbook.cell? p := by
  unfold take
  split
  · refine ⟨rfl, rfl, ?_, fun p hp => ?_⟩
    · exact (Workbook.cell?_eraseCell _ _ _).trans (if_pos rfl)
    · exact (Workbook.cell?_eraseCell _ _ _).trans (if_neg hp)
  · next hnone => exact ⟨rfl, rfl, hnone, fun _ _ => rfl⟩

/-- What is stored at one position concerns no other. There the new value has to be the one before, or its
change recorded. -/
theorem Notes.store (h : Notes v p e) {q : Position} (hsheet : e.workbook.contains q.sheet = true) (c : Cell)
    {changes : PositionSet} (hchanges : ∀ r ∈ e.changes, r ∈ changes)
    (hown : (∀ u : Value, u.same (e.workbook.value q) = true → u.same c.value = true) ∨ q ∈ changes) :
    Notes v p (({ e.take q with changes } : Engine).store q c) := by
  obtain ⟨hsettings, -, -, hcells⟩ := take_quiet e q
  by_cases hp : p = q
  · subst hp
    refine ⟨hsettings ▸ h.manual, ?_⟩
    rcases hown with hsame | hrecorded
    · refine h.noted.imp (fun hv => ?_) (hchanges p)
      have hcell : (({ e.take p with changes } : Engine).store p c).workbook.cell? p = some c := by
        apply cell_store
        show (e.take p).workbook.contains p.sheet = true
        unfold Engine.take
        split
        · rw [(Workbook.sameFrame_eraseCell _ _).contains_eq]
          exact hsheet
        · exact hsheet
      rw [Workbook.value_of_cell hcell]
      exact hsame v hv
    · exact Or.inr hrecorded
  · refine h.of_quiet hsettings (Workbook.value_congr_cell ?_) (hchanges p)
    show ((e.take q).workbook.insertCell q c).cell? p = _
    rw [Workbook.cell?_insertCell, if_neg hp]
    exact hcells p hp

end Parts

/-! ### Calls on cells -/

section Cells

variable {v : Value} {p : Position} {e : Engine} (h : Notes v p e) {q : Position}
include h

/-- A cell that is emptied is recorded, unless it showed nothing. -/
theorem notes_emptyCell : Notes v p (e.emptyCell q) := by
  obtain ⟨hsettings, hchanges, hnone, hcells⟩ := take_quiet e q
  unfold emptyCell
  split
  · exact h
  · next previous hprevious =>
    refine Notes.relinked ?_ [] [q]
    by_cases hp : p = q
    · subst hp
      split
      · next hempty =>
        refine h.of_quiet hsettings ?_ fun hp => hchanges ▸ hp
        rw [Workbook.value_of_cell hprevious]
        exact (Workbook.value_of_no_cell hnone).trans (Value.eq_empty_of_isEmpty hempty).symm
      · exact ⟨hsettings ▸ h.manual, Or.inr ((mem_insert_iff _ _ _).mpr (Or.inl rfl))⟩
    · refine h.of_quiet hsettings (Workbook.value_congr_cell (hcells p hp)) fun hmem => ?_
      dsimp only
      split
      · exact hchanges ▸ hmem
      · exact (mem_insert_iff _ _ _).mpr (Or.inr (hchanges ▸ hmem))

/-- A value that is stored is recorded, unless the cell showed the same. -/
theorem notes_putValue (hsheet : e.workbook.contains q.sheet = true) (u : Value) :
    Notes v p (e.putValue q u) := by
  unfold putValue
  split
  · exact notes_emptyCell h
  · refine Notes.relinked (h.store hsheet _ (fun r hr => ?_) ?_) [] [q]
    · split
      · exact (mem_insert_iff _ _ _).mpr (Or.inr hr)
      · exact hr
    · split
      · exact Or.inr ((mem_insert_iff _ _ _).mpr (Or.inl rfl))
      · next hsame =>
        left
        intro w hw
        unfold differsFrom at hsame
        split at hsame
        · next c hc =>
          rw [Workbook.value_of_cell hc] at hw
          have hsame : c.value.same u = true := by simpa using hsame
          exact Value.same_trans hw hsame
        · exact absurd rfl hsame

/-- A formula starts with the value that the cell had. -/
theorem notes_putFormula (hsheet : e.workbook.contains q.sheet = true) (text : String) :
    Notes v p (e.putFormula q text) := by
  obtain ⟨-, hchanges, -, -⟩ := take_quiet e q
  unfold putFormula
  refine Notes.relinked ?_ [q] [q]
  have hkept : ∀ r ∈ e.changes, r ∈ (e.take q).changes := fun r hr => hchanges ▸ hr
  refine h.store hsheet _ hkept (Or.inl fun u hu => ?_)
  rw [Workbook.value_eq] at hu
  cases hc : e.workbook.cell? q with
  | none =>
    rw [hc] at hu
    exact hu
  | some previous =>
    rw [hc] at hu
    exact hu

end Cells

/-! ### Calls on names, regions and sheets -/

section Sheets

variable {v : Value} {p : Position} {e : Engine} (h : Notes v p e)
include h

theorem notes_removeName (name : String) : Notes v p (e.removeName name).2 := by
  unfold removeName
  split
  · exact h
  · have hremoved : Notes v p { e with names := e.names.erase name } := h.of_quiet rfl rfl id
    exact hremoved.relinked _ _

theorem notes_replaceMerges {id : SheetId} {s : Sheet} (hs : e.workbook.sheet? id = some s) (rect : Rect)
    (merges : List Rect) : Notes v p (e.replaceMerges id rect { s with merges }) := by
  have hcell := Workbook.cell?_modifySheet_of_cells hs (t := { s with merges }) rfl p
  have hreplaced : Notes v p { e with workbook := e.workbook.modifySheet id fun _ => { s with merges } } :=
    h.of_quiet rfl (Workbook.value_congr_cell hcell) fun hp => hp
  exact hreplaced.relinked [] _

theorem notes_mergeCells (id : SheetId) (rect : Rect) : Notes v p (e.mergeCells id rect).engine := by
  refine perform_keeps h fun sheet hsheet => ?_
  obtain ⟨s, hs, -, -, rfl⟩ := merged_eq_ok hsheet
  exact notes_replaceMerges h hs rect _

theorem notes_unmergeCells (id : SheetId) (rect : Rect) : Notes v p (e.unmergeCells id rect).engine := by
  refine perform_keeps h fun s hget => ?_
  cases hremove : s.removeMerge rect with
  | none => exact h
  | some sheet =>
    rw [removeMerge_eq_some hremove]
    exact notes_replaceMerges h (sheet?_of_get hget) rect _

theorem notes_addSheet (hw : e.workbook.WellFormed) (name : String) : Notes v p (e.addSheet name).engine := by
  refine perform_keeps h fun ⟨w', id⟩ hadd => ?_
  show Notes v p ({ e with workbook := w' } : Engine).relinkUnresolved.afterEdit
  rw [relinkUnresolved_eq]
  have hadded : Notes v p { e with workbook := w' } :=
    h.of_quiet rfl (Workbook.value_congr_cell (congrFun (cell?_addSheet hw hadd) p)) fun hp => hp
  exact hadded.relinked _ _

/-- A sheet that goes takes the pending changes on it along, and no others. -/
theorem notes_removeSheet {id : SheetId} (hp : p.sheet ≠ id) : Notes v p (e.removeSheet id).engine := by
  refine perform_keeps h fun ⟨w', sheet⟩ hremove => ?_
  have hwithout : Notes v p (e.withoutSheet id sheet w') := by
    refine h.of_quiet rfl (Workbook.value_congr_cell ?_) fun hmem => ?_
    · exact (cell?_removeSheet hremove p).trans (if_neg hp)
    · exact (mem_filter_iff _ _ _).mpr ⟨hmem, bne_iff_ne.mpr hp⟩
  exact hwithout.relinked _ _

theorem notes_renameSheet (id : SheetId) (name : String) : Notes v p (e.renameSheet id name).engine := by
  refine perform_keeps h fun ⟨w', old⟩ hrename => ?_
  have hrenamed : Notes v p { e with workbook := w' } :=
    h.of_quiet rfl (Workbook.value_congr_cell (congrFun (cell?_renameSheet hrename) p)) fun hp => hp
  dsimp only
  split
  · exact hrenamed
  · refine Notes.relinked (foldl_keeps (P := Notes v p) (fun e entry _ he => ?_) hrenamed) _ _
    exact (he.replaceFormula _ _).relink _

end Sheets

/-! ### Edits of lines -/

/-- Whether a call drops the pending change at a position: it is an edit of lines that affects the position,
where nothing is stored before it or afterwards, and brings no other pending change there. -/
def drops (e : Engine) (p : Position) : Call → Bool
  | .editLines id d =>
    match e.editable id d with
    | .error _ => false
    | .ok sheet =>
      p.sheet == id && decide (d.line ≤ d.lineOf p.address) && e.changes.contains p &&
        (sheet.get? p.spot).isNone && ((e.movedSheet d sheet).get? p.spot).isNone &&
          e.changes.toList.all fun q => e.image id d q != some p
  | _ => false

section Lines

variable {v : Value} {p : Position} {e : Engine} {id : SheetId} {d : LineEdit} {sheet : Sheet}

/-- Texts that are replaced change no value, and concern no pending change. -/
theorem foldl_replaceFormula_quiet (edits : List (Position × String)) (e : Engine) :
    (∀ p, (edits.foldl (fun e entry => e.replaceFormula entry.1 entry.2) e).workbook.value p =
        e.workbook.value p) ∧
      (edits.foldl (fun e entry => e.replaceFormula entry.1 entry.2) e).changes = e.changes := by
  have hchanges : ∀ (e : Engine) (entry : Position × String),
      (e.replaceFormula entry.1 entry.2).changes = e.changes := fun _ _ => rfl
  refine ⟨fun p => ?_, foldl_unchanged (f := Engine.changes) hchanges edits e⟩
  refine foldl_unchanged (f := fun e : Engine => e.workbook.value p) (fun e entry => ?_) edits e
  refine Workbook.value_modifyCell (fun c => ?_) entry.1
  unfold Cell.replaceFormula
  split <;> rfl

/-- What lies on the grid, on an affected line, lies in the affected part. -/
theorem contains_affected {columns rows : Nat} (hp : p.address.isWithin columns rows = true)
    (hline : d.line ≤ d.lineOf p.address) :
    (d.affected columns rows).contains p.spot.col p.spot.row = true := by
  obtain ⟨sheet, row, col⟩ := p
  unfold Address.isWithin Position.address Address.plain at hp
  simp only [Bool.and_eq_true, decide_eq_true_eq] at hp
  obtain ⟨axis, change, line, count⟩ := d
  rw [Region.contains_iff]
  cases axis
  · have hline : line ≤ row := hline
    simp only [LineEdit.affected, Rect.span, Position.spot]
    omega
  · have hline : line ≤ col := hline
    simp only [LineEdit.affected, Rect.span, Position.spot]
    omega

theorem mem_spotsIn {s : Sheet} {r : Rect} {spot : Spot} :
    spot ∈ s.spotsIn r ↔ (s.get? spot).isSome = true ∧ r.contains spot.col spot.row = true := by
  unfold Sheet.spotsIn Sheet.spots Sheet.get?
  rw [List.mem_filter, Std.TreeMap.mem_keys, ← Std.TreeMap.isSome_getElem?_iff_mem]

/-- A position in the affected part is among those that are shown if something is stored there before lines
are edited or afterwards. -/
theorem mem_shownSpots (hsheet : p.sheet = id)
    (hp : (d.affected e.settings.columns e.settings.rows).contains p.spot.col p.spot.row = true)
    (hstored : (sheet.get? p.spot).isSome = true ∨ ((e.movedSheet d sheet).get? p.spot).isSome = true) :
    p ∈ e.shownSpots id d sheet := by
  refine List.mem_map.mpr ⟨p.spot, List.mem_append.mpr ?_, by rw [← hsheet]; rfl⟩
  exact hstored.imp (fun h => mem_spotsIn.mpr ⟨h, hp⟩) fun h => mem_spotsIn.mpr ⟨h, hp⟩

/-- **An edit of lines that does not drop the change at a position on the grid notes it.** -/
theorem notes_applyEdit (h : Notes v p e) (hconsistent : e.Consistent) (hcount : e.settings.IsCountable)
    (hp : p.address.isWithin e.settings.columns e.settings.rows = true)
    (hdrops : e.drops p (.editLines id d) = false) : Notes v p (e.applyEdit id d).engine := by
  refine perform_keeps h fun sheet hchecked => ?_
  obtain ⟨hs, hpos, hline⟩ := editable_eq_ok hchecked
  rw [shiftLines_eq]
  refine Notes.relinked ?_ _ _
  let e' : Engine := { e with workbook := e.movedWorkbook id d sheet, names := e.movedNames id d }
  let e₁ := e.shifted id d sheet (e.rewrites id d sheet) (e.shownSpots id d sheet)
  obtain ⟨hvalue, hchanges⟩ := foldl_replaceFormula_quiet (e.rewrites id d sheet) e'
  have hsettings : e₁.settings = e.settings :=
    (shifted_spec hconsistent hs (e.rewrites id d sheet) (e.shownSpots id d sheet)).settings_eq
  have hvalue : e₁.workbook.value p = (e.movedWorkbook id d sheet).value p := hvalue p
  have hmem : p ∈ e₁.changes ↔ (∃ q ∈ e.changes, e.image id d q = some p) ∨ p ∈ e.shownSpots id d sheet := by
    show p ∈ (e.shownSpots id d sheet).foldl (fun s p => s.insert p) (imageOf (e.image id d)
      ((e.rewrites id d sheet).foldl (fun e entry => e.replaceFormula entry.1 entry.2) e').changes) ↔ _
    rw [mem_foldl_insert, mem_imageOf, hchanges]
  by_cases haffected : p.sheet = id ∧ d.line ≤ d.lineOf p.address
  · obtain ⟨hid, hp'⟩ := haffected
    have hcontains := contains_affected hp hp'
    have hbefore : e.workbook.cell? p = sheet.get? p.spot := by
      unfold Workbook.cell?
      rw [hid, hs]
      rfl
    have hafter : (e.movedWorkbook id d sheet).cell? p = (e.movedSheet d sheet).get? p.spot := by
      unfold Workbook.cell?
      rw [sheet?_movedWorkbook hs, if_pos hid]
      rfl
    by_cases hstored : (sheet.get? p.spot).isSome = true ∨ ((e.movedSheet d sheet).get? p.spot).isSome = true
    · exact ⟨hsettings ▸ h.manual, Or.inr (hmem.mpr (Or.inr (mem_shownSpots hid hcontains hstored)))⟩
    · -- Nothing is stored there, so nothing is shown before or afterwards.
      rw [not_or, Bool.not_eq_true, Bool.not_eq_true, Option.isSome_eq_false_iff,
        Option.isSome_eq_false_iff] at hstored
      refine h.of_quiet hsettings ?_ fun hchange => hmem.mpr (Or.inl ?_)
      · rw [hvalue, Workbook.value_of_no_cell (hafter.trans (Option.isNone_iff_eq_none.mp hstored.2)),
          Workbook.value_of_no_cell (hbefore.trans (Option.isNone_iff_eq_none.mp hstored.1))]
      · unfold drops at hdrops
        dsimp only at hdrops
        rw [hchecked] at hdrops
        have hcontained : e.changes.contains p = true := hchange
        simp only [hid, beq_self_eq_true, hp', decide_true, hcontained, hstored.1, hstored.2, Bool.true_and,
          List.all_eq_false, Std.TreeSet.mem_toList, Bool.not_eq_true, bne_eq_false_iff_eq] at hdrops
        exact hdrops
  · have hfree : p.sheet = id → d.lineOf p.address < d.line := fun hid =>
      Nat.lt_of_not_le fun hle => haffected ⟨hid, hle⟩
    have hmoved := (shifted_spec hconsistent (d := d) hs [] []).cell?_of_before ⟨hpos, hline, hcount⟩ hfree
      List.not_mem_nil
    refine h.of_quiet hsettings (hvalue.trans (Workbook.value_congr_cell hmoved)) fun hchange => ?_
    exact hmem.mpr (Or.inl ⟨p, hchange, LineEdit.positionImage?_of_before hline hfree⟩)

end Lines

/-! ### All edits -/

end Engine

/-- A call that neither loads a cell nor makes a pass. -/
def Call.IsEdit : Call → Prop
  | .loadCell _ _ _ => False
  | .recalculate _ => False
  | .evaluateCell _ _ => False
  | _ => True

namespace Engine

section Run

variable {v : Value} {p : Position} {e : Engine}

/-- Displays that are built change no value. -/
theorem notes_buildDisplays (h : Notes v p e) : Notes v p e.buildDisplays.2 := by
  unfold buildDisplays
  refine h.of_quiet rfl ?_ fun hp => hp
  exact foldl_unchanged (f := fun w : Workbook => w.value p)
    (fun w q => Workbook.value_modifyCell Cell.value_buildDisplay q) _ _

/-- **Every edit that does not drop the change at a position on the grid notes it**, as long as the sheet
stays. -/
theorem notes_after (h : Notes v p e) (hconsistent : e.Consistent) (hcount : e.settings.IsCountable)
    (hp : p.address.isWithin e.settings.columns e.settings.rows = true) {c : Call} (hc : c.IsEdit)
    (hsheet : c ≠ .removeSheet p.sheet) (hdrops : e.drops p c = false) : Notes v p (e.after c) := by
  cases c with
  | addSheet name =>
    rw [after_addSheet]
    exact notes_addSheet h hconsistent.wellFormed name
  | removeSheet sheet => exact notes_removeSheet h fun heq => hsheet (congrArg Call.removeSheet heq.symm)
  | renameSheet sheet name => exact notes_renameSheet h sheet name
  | setFormula sheet a text =>
    refine perform_keeps h fun q hq => ?_
    dsimp only
    split
    · exact notes_putFormula h (contains_of_locate hq) text
    · exact notes_putValue h (contains_of_locate hq) _
  | setValue sheet a u => exact perform_keeps h fun q hq => notes_putValue h (contains_of_locate hq) u
  | clearCell sheet a => exact perform_keeps h fun q _ => notes_emptyCell h
  | defineName name sheet rect =>
    refine perform_keeps h fun names _ => ?_
    have hdefined : Notes v p { e with names } := h.of_quiet rfl rfl fun hp => hp
    exact hdefined.relinked _ _
  | removeName name => exact notes_removeName h name
  | mergeCells sheet rect => exact notes_mergeCells h sheet rect
  | unmergeCells sheet rect => exact notes_unmergeCells h sheet rect
  | editLines sheet edit => exact notes_applyEdit h hconsistent hcount hp hdrops
  | buildDisplays => exact notes_buildDisplays h
  | listen => exact h.of_quiet rfl rfl fun hp => hp
  | unlisten => exact h.of_quiet rfl rfl fun hp => hp
  | collect => exact h.of_quiet rfl rfl fun hp => hp
  | loadCell sheet a saved => exact hc.elim
  | recalculate scope => exact hc.elim
  | evaluateCell sheet a => exact hc.elim

/-- Whether one of several calls, one after the other, drops the pending change at a position. -/
def dropsOne (e : Engine) (p : Position) : List Call → Bool
  | [] => false
  | c :: cs => e.drops p c || (e.after c).dropsOne p cs

/-- **Edits that do not drop the change at a position on the grid note it.** -/
theorem notes_run (h : Notes v p e) (hconsistent : e.Consistent) (hcount : e.settings.IsCountable)
    (hp : p.address.isWithin e.settings.columns e.settings.rows = true) {cs : List Call}
    (hcs : ∀ c ∈ cs, c.IsEdit) (hsheet : .removeSheet p.sheet ∉ cs) (hdrops : e.dropsOne p cs = false) :
    Notes v p (e.run cs) := by
  induction cs generalizing e with
  | nil => exact h
  | cons c cs ih =>
    obtain ⟨hdrop, hrest⟩ := Bool.or_eq_false_iff.mp hdrops
    obtain ⟨hne, hnot⟩ := List.ne_and_not_mem_of_not_mem_cons hsheet
    have hkeeps := keeps_after hconsistent hcount c
    have hnotes := notes_after h hconsistent hcount hp (hcs c List.mem_cons_self) hne.symm hdrop
    refine ih hnotes hkeeps.consistent ?_ ?_ (fun d hd => hcs d (List.mem_cons_of_mem c hd)) hnot hrest
    · rw [hkeeps.settings_eq]
      exact hcount
    · rw [hkeeps.settings_eq]
      exact hp

/-! ### Passes -/

/-- Reading the loaded formulas changes no value. -/
theorem Notes.readAllLoaded (h : Notes v p e) : Notes v p e.readAllLoaded := by
  unfold Engine.readAllLoaded
  dsimp only
  split
  · exact h
  · have hread := readFrom_foldl { e with unread := {} } e.unread.toList
    refine markDirty_keeps (fun _ q h => h.markCell q) (h.of_quiet ?_ (hread.value_eq p) fun hp => ?_) _
    · rw [hread.rest_eq]
    · rw [hread.rest_eq]
      exact hp

/-- A cell that is finished is recorded if it shows something else then. -/
theorem noted_finish {env : Surroundings} {s : Pass}
    (h : v.same (s.workbook.value p) = true ∨ p ∈ s.changed) (f : Frame) :
    v.same ((Pass.finish env s f).workbook.value p) = true ∨ p ∈ (Pass.finish env s f).changed := by
  unfold Pass.finish
  dsimp only
  generalize (if f.cyclic = true then _ else _ : Value) = u
  have hgrows : p ∈ s.changed → p ∈ (if (s.workbook.cell? f.cell).any (fun c => c.wouldChange u) = true
      then f.cell :: s.changed else s.changed) := by
    intro hp
    split
    · exact List.mem_cons_of_mem _ hp
    · exact hp
  rw [Workbook.value_eq, Workbook.cell?_modifyCell]
  by_cases hp : p = f.cell
  · subst hp
    rw [if_pos rfl]
    cases hc : s.workbook.cell? f.cell with
    | none =>
      rw [Workbook.value_of_no_cell hc] at h
      exact h.imp_right fun hp => hp
    | some c =>
      rw [Workbook.value_of_cell hc] at h
      rw [hc] at hgrows
      by_cases hchange : c.wouldChange u = true
      · exact Or.inr (by simp [hchange])
      · refine h.imp (fun hv => Value.same_trans hv ?_) hgrows
        unfold Cell.wouldChange at hchange
        simpa using hchange
  · rw [if_neg hp, ← Workbook.value_eq]
    exact h.imp_right hgrows

/-- **A pass changes no value that it does not report as changed.** -/
theorem noted_pass (scope : PassScope) (h : v.same (e.workbook.value p) = true) :
    v.same ((e.pass scope).workbook.value p) = true ∨ p ∈ (e.pass scope).changed := by
  have hkept : Pass.Kept e.surroundings fun s =>
      v.same (s.workbook.value p) = true ∨ p ∈ s.changed := by
    refine Pass.Kept.of_seen (Q := fun w changed => v.same (w.value p) = true ∨ p ∈ changed)
      (fun w _ q hw => ?_) (fun w _ q hw => ?_) fun s f hs => noted_finish hs f
    · rw [Workbook.value_modifyCell fun c => c.value_markDirty]
      exact hw
    · rw [Workbook.value_modifyCell fun c => c.value_begin]
      exact hw
  exact hkept.run (Or.inl h) scope

end Run

/-! ### Reports -/

/-- Whether a position has a value in two engines, and not the same. A value that is not a number differs
from itself. -/
def differs (e e' : Engine) (sheet : SheetId) (a : Address) : Bool :=
  match e.getValue sheet a, e'.getValue sheet a with
  | .ok v, .ok v' => !v.same v'
  | _, _ => false

theorem differs_eq_true {e e' : Engine} {sheet : SheetId} {a : Address} :
    e.differs e' sheet a = true ↔
      ∃ v v', e.getValue sheet a = .ok v ∧ e'.getValue sheet a = .ok v' ∧ v.same v' = false := by
  unfold differs
  cases e.getValue sheet a with
  | error _ => simp
  | ok v =>
    cases e'.getValue sheet a with
    | error _ => simp
    | ok v' => simp

/-- A position that has a value is on the grid. -/
theorem getValue_eq_ok {e : Engine} {sheet : SheetId} {a : Address} {v : Value}
    (h : e.getValue sheet a = .ok v) :
    a.isWithin e.settings.columns e.settings.rows = true ∧ e.workbook.value (.ofAddress sheet a) = v := by
  unfold getValue locate at h
  split at h
  · cases h
  · split at h
    · next hwithin =>
      cases h
      exact ⟨hwithin, rfl⟩
    · cases h

/-- **No change goes unreported.** Between two passes a sheet stays, and no edit drops the change at a
position on it. If the position shows something else after the second pass than after the first, it lies in
a region that the second pass reports. -/
theorem reported_run {library : Library} {e : Engine} (h : Reachable library e)
    (hmanual : e.settings.autoRecalculate = false) (first last : PassScope) {cs : List Call}
    (hcs : ∀ c ∈ cs, c.IsEdit) {sheet : SheetId} {a : Address} (hstays : .removeSheet sheet ∉ cs)
    (hdrops : (e.recompute first).1.dropsOne (.ofAddress sheet a) cs = false)
    (hnumber : (e.recompute first).1.differs (e.recompute first).1 sheet a = false)
    (hdiffers : (e.recompute first).1.differs (((e.recompute first).1.run cs).recompute last).1 sheet a = true) :
    ∃ r ∈ (((e.recompute first).1.run cs).recompute last).2.changed,
      r.covers (.ofAddress sheet a) = true := by
  obtain ⟨v, v', hv, hv', hne⟩ := differs_eq_true.mp hdiffers
  obtain ⟨hwithin, hvalue⟩ := getValue_eq_ok hv
  obtain ⟨-, hvalue'⟩ := getValue_eq_ok hv'
  have hsettings := (settings_recompute h.consistent first).1
  have hself : v.same v = true := by
    unfold differs at hnumber
    rw [hv] at hnumber
    simpa using hnumber
  have hbefore : Notes v (.ofAddress sheet a) (e.recompute first).1 := by
    refine ⟨hsettings ▸ hmanual, Or.inl ?_⟩
    rw [hvalue]
    exact hself
  have hcount : (e.recompute first).1.settings.IsCountable := by
    rw [hsettings]
    exact (keeps_of_reachable h).2.1
  have hnotes := notes_run hbefore (consistent_recompute h.consistent first) hcount hwithin hcs hstays hdrops
  refine Region.covered_ofCells.mpr (List.mem_append.mpr ?_)
  rcases hnotes.readAllLoaded.noted with hsame | hpending
  · right
    rcases noted_pass last hsame with hsame | hchanged
    · have hvalue' : ((((e.recompute first).1.run cs).readAllLoaded).pass last).workbook.value
          (.ofAddress sheet a) = v' := hvalue'
      rw [hvalue', hne] at hsame
      cases hsame
    · exact hchanged
  · exact Or.inl (Std.TreeSet.mem_toList.mpr hpending)

/-- Calls that fill two cells and a formula. -/
def filled : List Call :=
  [.addSheet "S", .setValue firstSheet (.plain 1 2) (.boolean true),
    .setValue firstSheet (.plain 2 4) (.boolean true), .setFormula firstSheet (.plain 1 5) "=A2"]

/-- Edits that change one of the cells and empty the other, and move the formula down. -/
def mixedEdits : List Call :=
  [.setValue firstSheet (.plain 1 2) (.boolean false), .addSheet "T",
    .mergeCells firstSheet (.span 3 1 4 1), .clearCell firstSheet (.plain 2 4),
    .editLines firstSheet ⟨.rows, .insertion, 3, 1⟩, .renameSheet firstSheet "U"]

theorem reported_mixedEdits :
    (∀ c ∈ mixedEdits, c.IsEdit) ∧
      ∃ r ∈ (((((start {} .standard).run filled).recompute .dirty).1.run mixedEdits).recompute .dirty).2.changed,
        r.covers (.ofAddress firstSheet (.plain 1 6)) = true := by
  have hcount : Settings.IsCountable {} := ⟨by decide, by decide⟩
  have hreachable : Reachable .standard ((start {} .standard).run filled) :=
    reachable_iff_exists_run.mpr ⟨{}, hcount, filled, rfl⟩
  have hedits : ∀ c ∈ mixedEdits, c.IsEdit := by simp [mixedEdits, Call.IsEdit]
  refine ⟨hedits, reported_run hreachable (by decide +kernel) .dirty .dirty hedits ?_ (by decide +kernel)
    (by decide +kernel) (by decide +kernel)⟩
  simp [mixedEdits]

/-! ### A change that was dropped -/

/-- Calls that fill a single cell. -/
def filledOnce : List Call :=
  [.addSheet "S", .setValue firstSheet (.plain 1 5) (.boolean true)]

/-- Edits that empty the cell and insert a row above it. -/
def droppedEdits : List Call :=
  [.clearCell firstSheet (.plain 1 5), .editLines firstSheet ⟨.rows, .insertion, 3, 1⟩]

/-- **A change that was dropped is not reported.** The cell showed a value after the first pass and shows
nothing after the second. -/
theorem not_reported_dropped :
    (∀ c ∈ droppedEdits, c.IsEdit) ∧
      (((start {} .standard).run filledOnce).recompute .dirty).1.differs
        (((((start {} .standard).run filledOnce).recompute .dirty).1.run droppedEdits).recompute .dirty).1
        firstSheet (.plain 1 5) = true ∧
      ¬∃ r ∈ (((((start {} .standard).run filledOnce).recompute .dirty).1.run droppedEdits).recompute
        .dirty).2.changed, r.covers (.ofAddress firstSheet (.plain 1 5)) = true := by
  refine ⟨by simp [droppedEdits, Call.IsEdit], by decide +kernel, ?_⟩
  rw [← List.any_eq_true, Bool.not_eq_true]
  decide +kernel

end Engine

end Spreadsheet
