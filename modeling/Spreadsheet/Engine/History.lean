import Spreadsheet.Engine.Areas
import Spreadsheet.Engine.Lines
import Spreadsheet.Engine.Storage

/-!
# Histories of an engine

Everything that may change an engine is a call, with its arguments. An engine is reachable if some
sequence of calls leads to it from an empty engine, whatever their answers were; a call that is refused
is part of the sequence like any other. What holds of every empty engine and is kept by every call
therefore holds of all reachable engines, by induction on `Engine.Reachable`.
-/

namespace Spreadsheet

open Grid

/-- A call on an engine that may change it. -/
inductive Call where
  | addSheet (name : String)
  | removeSheet (sheet : SheetId)
  | renameSheet (sheet : SheetId) (name : String)
  | setFormula (sheet : SheetId) (address : Address) (text : String)
  | setValue (sheet : SheetId) (address : Address) (v : Value)
  | clearCell (sheet : SheetId) (address : Address)
  | loadCell (sheet : SheetId) (address : Address) (saved : SavedCell)
  | defineName (name : String) (sheet : SheetId) (rect : Rect)
  | removeName (name : String)
  | mergeCells (sheet : SheetId) (rect : Rect)
  | unmergeCells (sheet : SheetId) (rect : Rect)
  | editLines (sheet : SheetId) (edit : LineEdit)
  | recalculate (scope : PassScope)
  | evaluateCell (sheet : SheetId) (address : Address)
  | buildDisplays
  | listen
  | unlisten
  | collect

/-- A reply without its answer: only whether the call was refused. -/
def Reply.forget {α : Type} (r : Reply α) : Reply Unit := ⟨r.engine, r.result.map fun _ => ()⟩

/-- The grid is not larger than its lines can be counted. -/
def Settings.IsCountable (s : Settings) : Prop := s.columns ≤ lastLine ∧ s.rows ≤ lastLine

namespace Engine

/-- What a call leaves behind. -/
def reply (e : Engine) : Call → Reply Unit
  | .addSheet name => (e.addSheet name).forget
  | .removeSheet sheet => e.removeSheet sheet
  | .renameSheet sheet name => e.renameSheet sheet name
  | .setFormula sheet a text => e.setFormula sheet a text
  | .setValue sheet a v => e.setValue sheet a v
  | .clearCell sheet a => e.clearCell sheet a
  | .loadCell sheet a saved => e.loadCell sheet a saved
  | .defineName name sheet rect => e.defineName name sheet rect
  | .removeName name => ⟨(e.removeName name).2, .ok ()⟩
  | .mergeCells sheet rect => e.mergeCells sheet rect
  | .unmergeCells sheet rect => (e.unmergeCells sheet rect).forget
  | .editLines sheet edit => e.applyEdit sheet edit
  | .recalculate scope => (e.recalculate scope).forget
  | .evaluateCell sheet a => (e.evaluateCell sheet a).forget
  | .buildDisplays => ⟨e.buildDisplays.2, .ok ()⟩
  | .listen => ⟨e.listen, .ok ()⟩
  | .unlisten => ⟨e.unlisten, .ok ()⟩
  | .collect => ⟨e.collect.2, .ok ()⟩

/-- The engine after a call. -/
def after (e : Engine) (c : Call) : Engine := (e.reply c).engine

/-- The engine after several calls. -/
def run (e : Engine) (cs : List Call) : Engine := cs.foldl after e

/-- An engine in which nothing is stored yet. -/
def start (settings : Settings) (library : Library) : Engine := { settings, library }

/-- The engines that calls lead to from an empty engine with some functions. -/
inductive Reachable (library : Library) : Engine → Prop where
  | start (settings : Settings) (h : settings.IsCountable) : Reachable library (start settings library)
  | call {e : Engine} (c : Call) (h : Reachable library e) : Reachable library (e.after c)

@[simp]
theorem run_nil (e : Engine) : e.run [] = e := rfl

@[simp]
theorem run_cons (e : Engine) (c : Call) (cs : List Call) : e.run (c :: cs) = (e.after c).run cs := rfl

/-- The handle of a new sheet is no part of what a call leaves behind. -/
theorem after_addSheet (e : Engine) (name : String) : e.after (.addSheet name) = (e.addSheet name).engine := by
  rw [after, reply, Reply.forget]

theorem run_append (e : Engine) (cs ds : List Call) : e.run (cs ++ ds) = (e.run cs).run ds := by
  simp [run]

/-- Further calls do not lead out of the reachable engines. -/
theorem Reachable.run {library : Library} {e : Engine} (h : Reachable library e) (cs : List Call) :
    Reachable library (e.run cs) := by
  induction cs generalizing e with
  | nil => exact h
  | cons c cs ih => exact ih (h.call c)

/-- An engine is reachable exactly if some list of calls leads to it from an empty engine. -/
theorem reachable_iff_exists_run {library : Library} {e : Engine} :
    Reachable library e ↔
      ∃ settings : Settings, settings.IsCountable ∧ ∃ cs, e = (start settings library).run cs := by
  constructor
  · intro h
    induction h with
    | start settings hs => exact ⟨settings, hs, [], rfl⟩
    | call c _ ih =>
      obtain ⟨settings, hs, cs, rfl⟩ := ih
      exact ⟨settings, hs, cs ++ [c], by rw [run_append]; rfl⟩
  · rintro ⟨settings, hs, cs, rfl⟩
    exact (Reachable.start settings hs).run cs

end Engine

end Spreadsheet
