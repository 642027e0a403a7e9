import Spreadsheet.Proofs.Naming

/-!
# Refusing: a refused call changes nothing

`Engine.perform` checks the arguments of a call before it acts. Carried out step by step a call is not so
tidy: checks are repeated where one call is made of others, the names on a sheet are dropped before the sheet
is asked for again, and a cell is looked up once more after a pass over it. A step that refuses leaves the
engine as the steps before it made it.

So every call is spelled out here as a `Procedure`, whose steps follow one another in one engine:

* `check` and `act` — a step that looks and may refuse, and a step that changes the engine;
* `Procedure.ofCall` — the steps of each call;
* `reply_addSheet`, `reply_removeSheet` and so on — the steps of one call leave what the call leaves. No step
  refuses after one that has acted: a check that is repeated passes again;
* `reply_ofCall` — so it is for every call.

The main result is `unchanged_of_refused`: a call that is refused, wherever among its steps, leaves the engine
exactly as it was. Over a whole history, the calls that are refused could as well be left out (`run_accepted`).
-/

namespace Spreadsheet

open Grid

namespace Engine

/-! ### Procedures -/

/-- A call in steps on one engine. A step that refuses ends it, and what was done before is not undone. -/
abbrev Procedure (α : Type) : Type := EStateM EngineError Engine α

namespace Procedure

variable {α β : Type}

/-- A step that looks at the engine and may refuse. -/
def check (f : Engine → Except EngineError α) : Procedure α := fun e =>
  match f e with
  | .ok x => .ok x e
  | .error problem => .error problem e

/-- A step that changes the engine. -/
def act (f : Engine → Engine) : Procedure Unit := fun e => .ok () (f e)

/-- A step that changes the workbook unless the workbook refuses. -/
def changeWorkbook (f : Workbook → Except EngineError (Workbook × α)) : Procedure α := do
  let (workbook, x) ← check fun e => f e.workbook
  act fun e => { e with workbook }
  return x

/-- What the steps leave behind. -/
def reply (m : Procedure α) (e : Engine) : Reply α :=
  match m e with
  | .ok x e' => ⟨e', .ok x⟩
  | .error problem e' => ⟨e', .error problem⟩

@[simp]
theorem reply_check (f : Engine → Except EngineError α) (e : Engine) : (check f).reply e = ⟨e, f e⟩ := by
  unfold reply check
  cases f e <;> rfl

/-- Steps after others are carried out unless those refuse. -/
theorem reply_bind (m : Procedure α) (k : α → Procedure β) (e : Engine) :
    (m >>= k).reply e =
      match m.reply e with
      | ⟨e', .ok x⟩ => (k x).reply e'
      | ⟨e', .error problem⟩ => ⟨e', .error problem⟩ := by
  show reply (EStateM.bind m k) e = _
  unfold reply EStateM.bind
  cases m e <;> rfl

@[simp]
theorem reply_act_bind (f : Engine → Engine) (k : Unit → Procedure β) (e : Engine) :
    (act f >>= k).reply e = (k ()).reply (f e) := rfl

@[simp]
theorem reply_get_bind (k : Engine → Procedure β) (e : Engine) : (get >>= k).reply e = (k e).reply e := rfl

section Check

variable {f : Engine → Except EngineError α} {e : Engine}

theorem reply_check_bind_ok {x : α} (h : f e = .ok x) (k : α → Procedure β) :
    (check f >>= k).reply e = (k x).reply e := by
  rw [reply_bind, reply_check, h]

theorem reply_check_bind_error {problem : EngineError} (h : f e = .error problem) (k : α → Procedure β) :
    (check f >>= k).reply e = ⟨e, .error problem⟩ := by
  rw [reply_bind, reply_check, h]

/-- Steps that begin with a check, and after it leave what an action leaves, are a call that checks and
acts. -/
theorem reply_check_bind {k : α → Procedure β} {action : α → Engine × β}
    (h : ∀ x, f e = .ok x → (k x).reply e = ⟨(action x).1, .ok (action x).2⟩) :
    (check f >>= k).reply e = e.perform (f e) action := by
  cases hx : f e with
  | error problem => exact reply_check_bind_error hx k
  | ok x =>
    rw [reply_check_bind_ok hx]
    exact h x hx

end Check

section ChangeWorkbook

variable {f : Workbook → Except EngineError (Workbook × α)} {e : Engine}

theorem reply_changeWorkbook_bind_ok {w : Workbook} {x : α} (h : f e.workbook = .ok (w, x))
    (k : α → Procedure β) : (changeWorkbook f >>= k).reply e = (k x).reply { e with workbook := w } := by
  unfold changeWorkbook
  rw [bind_assoc, reply_check_bind_ok h]
  rfl

theorem reply_changeWorkbook_bind_error {problem : EngineError} (h : f e.workbook = .error problem)
    (k : α → Procedure β) : (changeWorkbook f >>= k).reply e = ⟨e, .error problem⟩ := by
  unfold changeWorkbook
  rw [bind_assoc, reply_check_bind_error h]

end ChangeWorkbook

/-! ### Sheets -/

/-- Adding a sheet in steps. -/
def addSheet (name : String) : Procedure SheetId := do
  let id ← changeWorkbook (·.addSheet name)
  act relinkUnresolved
  act afterEdit
  return id

theorem reply_addSheet (name : String) (e : Engine) : (addSheet name).reply e = e.addSheet name := by
  unfold addSheet Engine.addSheet
  cases h : e.workbook.addSheet name with
  | error problem => exact reply_changeWorkbook_bind_error h _
  | ok added => exact reply_changeWorkbook_bind_ok h _

/-- Removing a sheet in steps. The names on it are dropped before the workbook is asked for the sheet
again. -/
def removeSheet (id : SheetId) : Procedure Unit := do
  let _ ← check (·.workbook.get id)
  let readers := (← get).readersLeftBehind id
  let elsewhere := fun (p : Position) => p.sheet != id
  act fun e => { e with names := e.names.removeSheet id }
  let sheet ← changeWorkbook (·.removeSheet id)
  act fun e => { e with graph := (sheet.spots.map fun spot => spot.on id).foldl DependencyGraph.clear e.graph }
  act fun e => { e with dirty := e.dirty.filter elsewhere }
  act fun e => { e with unread := e.unread.filter elsewhere }
  act fun e => { e with changes := e.changes.filter elsewhere }
  act (·.relinkAll readers)
  act (·.markDirty readers)
  act afterEdit

theorem reply_removeSheet (id : SheetId) (e : Engine) : (removeSheet id).reply e = e.removeSheet id := by
  unfold removeSheet Engine.removeSheet
  cases h : e.workbook.get id with
  | error problem =>
    have hremove : e.workbook.removeSheet id = .error problem := by
      unfold Workbook.removeSheet
      rw [h]
    rw [hremove]
    exact reply_check_bind_error h _
  | ok sheet =>
    -- Dropping names leaves the workbook alone, so the second check passes as the first did.
    obtain ⟨w, hremove⟩ : ∃ w, e.workbook.removeSheet id = .ok (w, sheet) := by
      unfold Workbook.removeSheet
      rw [h]
      exact ⟨_, rfl⟩
    rw [hremove, reply_check_bind_ok h, reply_get_bind, reply_act_bind]
    exact reply_changeWorkbook_bind_ok hremove _

/-- Renaming a sheet in steps. -/
def renameSheet (id : SheetId) (name : String) : Procedure Unit := do
  let old ← changeWorkbook (·.renameSheet id name)
  if old = name then return
  else
    let edited := (← get).editedFormulas fun _ r => requalify old name r
    act fun e => edited.foldl (fun e (p, text) => (e.replaceFormula p text).relink p) e
    let unresolved := (← get).graph.unresolved.toList
    act (·.relinkAll unresolved)
    act (·.markDirty (edited.map Prod.fst ++ unresolved))
    act afterEdit

theorem reply_renameSheet (id : SheetId) (name : String) (e : Engine) :
    (renameSheet id name).reply e = e.renameSheet id name := by
  unfold renameSheet Engine.renameSheet
  cases h : e.workbook.renameSheet id name with
  | error problem => exact reply_changeWorkbook_bind_error h _
  | ok renamed =>
    rw [reply_changeWorkbook_bind_ok h]
    show _ = Reply.mk (if renamed.2 = name then _ else _) _
    split
    · rfl
    · rfl

/-! ### Cells -/

/-- Emptying a cell in steps. -/
def clearCell (sheet : SheetId) (a : Address) : Procedure Unit := do
  let p ← check (·.locate sheet a)
  match (← get).workbook.cell? p with
  | none => return
  | some previous =>
    act (·.take p)
    act fun e => { e with dirty := e.dirty.erase p }
    act fun e => { e with changes := if previous.value.isEmpty then e.changes else e.changes.insert p }
    act (·.markDirty [p])
    act afterEdit

/-- Storing a value in steps: the empty value empties the cell, and the address is checked again. -/
def setValue (sheet : SheetId) (a : Address) (v : Value) : Procedure Unit := do
  let p ← check (·.locate sheet a)
  if v.isEmpty then clearCell sheet a
  else
    let differs := (← get).differsFrom p v
    act (·.take p)
    act fun e => { e with changes := if differs then e.changes.insert p else e.changes }
    act (·.store p (.constant v))
    act (·.markDirty [p])
    act afterEdit

/-- Storing what a text stands for in steps: a constant is stored as a value, and the address is checked
again. -/
def setFormula (sheet : SheetId) (a : Address) (text : String) : Procedure Unit := do
  let p ← check (·.locate sheet a)
  if isFormulaText text then
    let e ← get
    let fresh := Cell.formula text (e.readFormula text)
    let cell := match e.workbook.cell? p with
      | some previous => fresh.storeValue previous.value
      | none => fresh
    act (·.take p)
    act (·.store p cell)
    act (·.relink p)
    act (·.markDirty [p])
    act afterEdit
  else setValue sheet a (Value.ofConstant (← get).settings.locale text)

/-- Storing what was saved of a cell in steps: an empty text empties the cell, and the address is checked
again. -/
def loadCell (sheet : SheetId) (a : Address) (saved : SavedCell) : Procedure Unit := do
  let p ← check (·.locate sheet a)
  match saved.text.toList with
  | '=' :: _ => act (·.loadFormula p saved.text saved.value)
  | c :: rest =>
    if c = textMark then act (·.loadConstant p (.text (String.ofList rest)))
    else
      let v := Value.ofConstant (← get).settings.locale saved.text
      if v.isEmpty then clearCell sheet a else act (·.loadConstant p v)
  | [] => clearCell sheet a

theorem reply_clearCell (sheet : SheetId) (a : Address) (e : Engine) :
    (clearCell sheet a).reply e = e.clearCell sheet a := by
  unfold clearCell
  refine reply_check_bind fun p hp => ?_
  show _ = Reply.mk (e.emptyCell p) (.ok ())
  unfold emptyCell
  rw [reply_get_bind]
  cases hc : e.workbook.cell? p with
  | none => rfl
  | some previous => rfl

theorem reply_setValue (sheet : SheetId) (a : Address) (v : Value) (e : Engine) :
    (setValue sheet a v).reply e = e.setValue sheet a v := by
  unfold setValue
  refine reply_check_bind fun p hp => ?_
  show _ = Reply.mk (e.putValue p v) (.ok ())
  unfold putValue
  split
  · rw [reply_clearCell, Engine.clearCell, hp]
    rfl
  · have hchanges : (e.take p).changes = e.changes := by
      unfold take
      split <;> rfl
    rw [← hchanges]
    rfl

theorem reply_setFormula (sheet : SheetId) (a : Address) (text : String) (e : Engine) :
    (setFormula sheet a text).reply e = e.setFormula sheet a text := by
  unfold setFormula
  refine reply_check_bind fun p hp => ?_
  show _ = Reply.mk (if isFormulaText text then e.putFormula p text else _) (.ok ())
  split
  · rfl
  · rw [reply_get_bind, reply_setValue, Engine.setValue, hp]
    rfl

/-- Only the empty text stands for nothing. -/
theorem isEmpty_ofConstant (locale : Locale) {text : String} (h : text ≠ "") :
    (Value.ofConstant locale text).isEmpty = false := by
  unfold Value.ofConstant
  rw [if_neg h]
  split
  · rfl
  · split_ifs <;> rfl

theorem reply_loadCell (sheet : SheetId) (a : Address) (saved : SavedCell) (e : Engine) :
    (loadCell sheet a saved).reply e = e.loadCell sheet a saved := by
  unfold loadCell
  refine reply_check_bind fun p hp => ?_
  dsimp only
  cases htext : saved.text.toList with
  | nil =>
    show (clearCell sheet a).reply e = Reply.mk (e.emptyCell p) (.ok ())
    rw [reply_clearCell, Engine.clearCell, hp]
    rfl
  | cons c rest =>
    by_cases hformula : c = '='
    · rw [hformula]
      rfl
    · have hne : saved.text ≠ "" := by
        intro h
        rw [h] at htext
        cases htext
      -- Both sides leave the case of a formula out, by `hformula`.
      simp only
      split
      · rfl
      · rw [reply_get_bind, isEmpty_ofConstant _ hne]
        rfl

/-! ### Names and merged regions -/

/-- Refuses a rectangle that does not lie in the grid. -/
def checkFits (rect : Rect) : Procedure Unit :=
  check fun e => if e.fits rect then .ok () else .error (.invalidRange rect.text)

/-- Defining a name in steps. -/
def defineName (name : String) (sheet : SheetId) (rect : Rect) : Procedure Unit := do
  let _ ← check (·.workbook.get sheet)
  checkFits rect
  let names ← check (·.names.define name sheet rect)
  act fun e => { e with names }
  act (·.refreshName name)

/-- Merging cells in steps. -/
def mergeCells (id : SheetId) (rect : Rect) : Procedure Unit := do
  checkFits rect
  let sheet ← check (·.workbook.get id)
  match sheet.addMerge rect with
  | none => throw (.invalidRange (rect.text ++ " is a single cell or overlaps an existing merge"))
  | some sheet =>
    act fun e => { e with workbook := e.workbook.modifySheet id fun _ => sheet }
    let readers := (← get).graph.readersOfRect id rect
    act (·.markDirty readers.toList)
    act afterEdit

/-- Undoing a merge in steps. -/
def unmergeCells (id : SheetId) (rect : Rect) : Procedure Bool := do
  let sheet ← check (·.workbook.get id)
  match sheet.removeMerge rect with
  | none => return false
  | some sheet =>
    act fun e => { e with workbook := e.workbook.modifySheet id fun _ => sheet }
    let readers := (← get).graph.readersOfRect id rect
    act (·.markDirty readers.toList)
    act afterEdit
    return true

theorem reply_defineName (name : String) (sheet : SheetId) (rect : Rect) (e : Engine) :
    (defineName name sheet rect).reply e = e.defineName name sheet rect := by
  unfold defineName checkFits Engine.defineName definition
  cases hs : e.workbook.get sheet with
  | error problem => exact reply_check_bind_error hs _
  | ok s =>
    rw [reply_check_bind_ok hs]
    dsimp only
    split
    · next hfits =>
      rw [reply_check_bind_ok (if_pos hfits)]
      exact reply_check_bind fun names _ => rfl
    · next hfits => exact reply_check_bind_error (if_neg hfits) _

theorem reply_mergeCells (id : SheetId) (rect : Rect) (e : Engine) :
    (mergeCells id rect).reply e = e.mergeCells id rect := by
  unfold mergeCells checkFits Engine.mergeCells merged
  split
  · next hfits =>
    rw [reply_check_bind_ok (if_pos hfits)]
    cases hs : e.workbook.get id with
    | error problem => exact reply_check_bind_error hs _
    | ok sheet =>
      rw [reply_check_bind_ok hs]
      dsimp only
      cases sheet.addMerge rect <;> rfl
  · next hfits => exact reply_check_bind_error (if_neg hfits) _

theorem reply_unmergeCells (id : SheetId) (rect : Rect) (e : Engine) :
    (unmergeCells id rect).reply e = e.unmergeCells id rect := by
  refine reply_check_bind fun sheet _ => ?_
  cases sheet.removeMerge rect <;> rfl

/-! ### Lines -/

/-- Inserting or deleting lines in steps. The sheet is asked for by its name, for the cells that will move, and
for the move itself. -/
def applyEdit (id : SheetId) (edit : LineEdit) : Procedure Unit := do
  let _ ← check (·.workbook.get id)
  check fun e =>
    if edit.count = 0 ∨ edit.line = 0 ∨ e.limit edit.axis < edit.line then
      .error (.invalidRange edit.describe)
    else .ok ()
  let _ ← check (·.workbook.get id)
  let sheet ← check (·.workbook.get id)
  act (·.shiftLines id edit sheet)

theorem reply_applyEdit (id : SheetId) (edit : LineEdit) (e : Engine) :
    (applyEdit id edit).reply e = e.applyEdit id edit := by
  unfold applyEdit Engine.applyEdit editable
  cases hs : e.workbook.get id with
  | error problem => exact reply_check_bind_error hs _
  | ok sheet =>
    rw [reply_check_bind_ok hs]
    dsimp only
    split
    · next hbad => exact reply_check_bind_error (if_pos hbad) _
    · next hgood =>
      rw [reply_check_bind_ok (if_neg hgood), reply_check_bind_ok hs, reply_check_bind_ok hs]
      rfl

/-! ### Passes -/

/-- A recalculation in steps. Only a single cell is checked. -/
def recalculate (scope : PassScope) : Procedure PassReport := do
  check fun e =>
    match scope with
    | .cell p => (e.locate p.sheet p.address).map fun _ => ()
    | _ => .ok ()
  let report := ((← get).recompute scope).2
  act fun e => (e.recompute scope).1
  return report

/-- Computing a cell in steps: the address is checked before the recalculation, by it, and after it. -/
def evaluateCell (sheet : SheetId) (a : Address) : Procedure Value := do
  let p ← check (·.locate sheet a)
  let _ ← recalculate (.cell p)
  check (·.getValue sheet a)

theorem reply_recalculate (scope : PassScope) (e : Engine) :
    (recalculate scope).reply e = e.recalculate scope :=
  reply_check_bind fun _ _ => rfl

/-- The address of a position that was located leads to it. -/
theorem locate_address {e : Engine} {sheet : SheetId} {a : Address} {p : Position}
    (h : e.locate sheet a = .ok p) : e.locate p.sheet p.address = .ok p := by
  unfold locate at h
  split at h
  · cases h
  · next s hs =>
    split at h
    · next hwithin =>
      cases h
      unfold locate
      rw [show e.workbook.get (Position.ofAddress sheet a).sheet = .ok s from hs]
      exact if_pos hwithin
    · cases h

/-- A pass moves nothing, so an address is found where it was before. -/
theorem locate_recompute (e : Engine) (scope : PassScope) (sheet : SheetId) (a : Address) :
    (e.recompute scope).1.locate sheet a = e.locate sheet a := by
  have hsettings : (e.recompute scope).1.settings = e.settings := by
    show e.readAllLoaded.settings = e.settings
    unfold readAllLoaded
    dsimp only
    split
    · rfl
    · refine markDirty_keeps (P := fun e' => e'.settings = e.settings) (fun e' p he => ?_) ?_ _
      · exact (markedBy_markCell e' p).settings_eq.trans he
      · rw [(readFrom_foldl { e with unread := {} } e.unread.toList).rest_eq]
  have hname := (sameFrame_recompute (Workbook.SameFrame.refl e.workbook) scope).sameNames.name_eq sheet
  unfold locate Workbook.get
  rw [hsettings]
  cases hs : e.workbook.sheet? sheet with
  | none =>
    rw [hs] at hname
    rw [Option.map_eq_none_iff.mp hname]
  | some s =>
    rw [hs] at hname
    obtain ⟨s', hs', -⟩ := Option.map_eq_some_iff.mp hname
    rw [hs']

theorem reply_evaluateCell (sheet : SheetId) (a : Address) (e : Engine) :
    (evaluateCell sheet a).reply e = e.evaluateCell sheet a := by
  unfold evaluateCell
  refine reply_check_bind fun p hp => ?_
  have hpass : (recalculate (.cell p)).reply e =
      ⟨(e.recompute (.cell p)).1, .ok (e.recompute (.cell p)).2⟩ := by
    rw [reply_recalculate, Engine.recalculate, locate_address hp]
    rfl
  rw [reply_bind, hpass]
  show (check fun e => e.getValue sheet a).reply _ = _
  rw [reply_check, getValue, locate_recompute, hp]
  rfl

/-! ### Calls -/

/-- The steps of a call, its answer aside. -/
def ofCall : Call → Procedure Unit
  | .addSheet name => discard (addSheet name)
  | .removeSheet sheet => removeSheet sheet
  | .renameSheet sheet name => renameSheet sheet name
  | .setFormula sheet a text => setFormula sheet a text
  | .setValue sheet a v => setValue sheet a v
  | .clearCell sheet a => clearCell sheet a
  | .loadCell sheet a saved => loadCell sheet a saved
  | .defineName name sheet rect => defineName name sheet rect
  | .removeName name => act fun e => (e.removeName name).2
  | .mergeCells sheet rect => mergeCells sheet rect
  | .unmergeCells sheet rect => discard (unmergeCells sheet rect)
  | .editLines sheet edit => applyEdit sheet edit
  | .recalculate scope => discard (recalculate scope)
  | .evaluateCell sheet a => discard (evaluateCell sheet a)
  | .buildDisplays => act fun e => e.buildDisplays.2
  | .listen => act listen
  | .unlisten => act unlisten
  | .collect => act fun e => e.collect.2

theorem reply_discard (m : Procedure α) (e : Engine) : (discard m).reply e = (m.reply e).forget := by
  show reply (EStateM.map (Function.const α ()) m) e = _
  unfold reply EStateM.map
  cases m e <;> rfl

/-- **The steps of a call leave what the call leaves**, whether it is refused or not. -/
theorem reply_ofCall (c : Call) (e : Engine) : (ofCall c).reply e = e.reply c := by
  cases c with
  | addSheet name => exact (reply_discard _ e).trans (congrArg Reply.forget (reply_addSheet name e))
  | removeSheet sheet => exact reply_removeSheet sheet e
  | renameSheet sheet name => exact reply_renameSheet sheet name e
  | setFormula sheet a text => exact reply_setFormula sheet a text e
  | setValue sheet a v => exact reply_setValue sheet a v e
  | clearCell sheet a => exact reply_clearCell sheet a e
  | loadCell sheet a saved => exact reply_loadCell sheet a saved e
  | defineName name sheet rect => exact reply_defineName name sheet rect e
  | mergeCells sheet rect => exact reply_mergeCells sheet rect e
  | unmergeCells sheet rect =>
    exact (reply_discard _ e).trans (congrArg Reply.forget (reply_unmergeCells sheet rect e))
  | editLines sheet edit => exact reply_applyEdit sheet edit e
  | recalculate scope => exact (reply_discard _ e).trans (congrArg Reply.forget (reply_recalculate scope e))
  | evaluateCell sheet a =>
    exact (reply_discard _ e).trans (congrArg Reply.forget (reply_evaluateCell sheet a e))
  | removeName name => rfl
  | buildDisplays => rfl
  | listen => rfl
  | unlisten => rfl
  | collect => rfl

end Procedure

/-! ### Refused calls -/

variable {e : Engine}

theorem result_eq_error_of_forget {α : Type} {r : Reply α} {problem : EngineError}
    (h : r.forget.result = .error problem) : r.result = .error problem := by
  obtain ⟨e, result⟩ := r
  cases result with
  | error _ => cases h; rfl
  | ok x => cases h

theorem after_of_refused {c : Call} {problem : EngineError} (h : (e.reply c).result = .error problem) :
    e.after c = e := by
  cases c with
  | removeName | buildDisplays | listen | unlisten | collect => cases h
  | addSheet | unmergeCells | recalculate | evaluateCell =>
    exact perform_engine_of_error (result_eq_error_of_forget h)
  | _ => exact perform_engine_of_error h

/-- **A refused call changes nothing**: the engine is as it was, and it is so where the steps of the call
stop. -/
theorem unchanged_of_refused {c : Call} {problem : EngineError} (h : (e.reply c).result = .error problem) :
    e.after c = e ∧ Procedure.ofCall c e = .error problem e := by
  have hafter := after_of_refused h
  refine ⟨hafter, ?_⟩
  have hreply := Procedure.reply_ofCall c e
  unfold Procedure.reply at hreply
  unfold after at hafter
  cases hsteps : Procedure.ofCall c e with
  | ok x e' =>
    rw [hsteps] at hreply
    rw [← hreply] at h
    cases h
  | error problem' e' =>
    rw [hsteps] at hreply
    rw [← hreply] at h hafter
    cases h
    cases hafter
    rfl

/-- Calls that leave a formula, a merged region and the handle of a sheet that is gone. -/
def refusing : List Call :=
  [.addSheet "Data", .addSheet "Other", .setFormula ⟨0, 0⟩ (.plain 1 1) "=B2+Rate+Other!A1",
    .mergeCells ⟨0, 0⟩ (.span 2 2 3 3), .removeSheet ⟨1, 0⟩]

/-- A region that overlaps another is refused after all other checks, and a sheet that is gone by the first. -/
theorem unchanged_refusing :
    ((start {} .standard).run refusing).after (.mergeCells ⟨0, 0⟩ (.span 3 3 4 4)) =
        (start {} .standard).run refusing ∧
      Procedure.ofCall (.removeSheet ⟨1, 0⟩) ((start {} .standard).run refusing) =
        .error (.staleSheet ⟨1, 0⟩) ((start {} .standard).run refusing) := by
  have hmerge : (((start {} .standard).run refusing).reply (.mergeCells ⟨0, 0⟩ (.span 3 3 4 4))).result =
      .error (.invalidRange "C3:D4 is a single cell or overlaps an existing merge") := by
    decide +kernel
  have hremove : (((start {} .standard).run refusing).reply (.removeSheet ⟨1, 0⟩)).result =
      .error (.staleSheet ⟨1, 0⟩) := by
    decide +kernel
  exact ⟨(unchanged_of_refused hmerge).1, (unchanged_of_refused hremove).2⟩

/-! ### Histories without refusals -/

/-- The calls of a history that are not refused. -/
def accepted (e : Engine) : List Call → List Call
  | [] => []
  | c :: cs =>
    match (e.reply c).result with
    | .ok _ => c :: (e.after c).accepted cs
    | .error _ => e.accepted cs

/-- None of several calls is refused. -/
def AcceptsAll (e : Engine) : List Call → Prop
  | [] => True
  | c :: cs => (e.reply c).result = .ok () ∧ (e.after c).AcceptsAll cs

/-- **The calls that are refused could as well be left out of a history.** -/
theorem run_accepted (e : Engine) (cs : List Call) :
    e.AcceptsAll (e.accepted cs) ∧ e.run (e.accepted cs) = e.run cs := by
  induction cs generalizing e with
  | nil => exact ⟨trivial, rfl⟩
  | cons c cs ih =>
    unfold accepted
    cases h : (e.reply c).result with
    | ok x => exact ⟨⟨h, (ih (e.after c)).1⟩, (ih (e.after c)).2⟩
    | error problem =>
      obtain ⟨haccepts, hrun⟩ := ih e
      refine ⟨haccepts, ?_⟩
      rw [run_cons, after_of_refused h]
      exact hrun

end Engine

end Spreadsheet
