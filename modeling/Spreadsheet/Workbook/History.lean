import Spreadsheet.Workbook.Basic

/-!
# Histories of a workbook

Sheets come, go and change their names by three calls; one that is refused leaves the workbook as it was.
Beside the workbook that a list of calls leads to, this module says what the workbook itself does not
remember: which handles it gave out, and how often one of its slots was emptied.
-/

namespace Spreadsheet

/-- A call on a workbook that concerns a whole sheet. -/
inductive SheetCall where
  | add (name : String)
  | remove (id : SheetId)
  | rename (id : SheetId) (name : String)
  deriving DecidableEq, Repr

namespace Workbook

/-- The workbook after a call. -/
def after (w : Workbook) : SheetCall → Workbook
  | .add name =>
    match w.addSheet name with
    | .ok (w', _) => w'
    | .error _ => w
  | .remove id =>
    match w.removeSheet id with
    | .ok (w', _) => w'
    | .error _ => w
  | .rename id name =>
    match w.renameSheet id name with
    | .ok (w', _) => w'
    | .error _ => w

/-- The workbook after several calls. -/
def run (w : Workbook) (cs : List SheetCall) : Workbook := cs.foldl after w

/-- The handle that a call gives out. -/
def handle? (w : Workbook) : SheetCall → Option SheetId
  | .add name =>
    match w.addSheet name with
    | .ok (_, id) => some id
    | .error _ => none
  | .remove _ => none
  | .rename _ _ => none

/-- The handles that several calls give out, in the order in which the sheets were added. -/
def handles (w : Workbook) : List SheetCall → List SheetId
  | [] => []
  | c :: cs => (w.handle? c).toList ++ (w.after c).handles cs

/-- Whether a call empties a slot. -/
def empties (w : Workbook) (index : UInt32) : SheetCall → Bool
  | .add _ => false
  | .remove id => id.index == index && w.contains id
  | .rename _ _ => false

/-- How often several calls empty a slot. -/
def emptied (w : Workbook) (index : UInt32) : List SheetCall → Nat
  | [] => 0
  | c :: cs => (w.empties index c).toNat + (w.after c).emptied index cs

@[simp]
theorem run_nil (w : Workbook) : w.run [] = w := rfl

@[simp]
theorem run_cons (w : Workbook) (c : SheetCall) (cs : List SheetCall) :
    w.run (c :: cs) = (w.after c).run cs := rfl

theorem run_append (w : Workbook) (cs ds : List SheetCall) : w.run (cs ++ ds) = (w.run cs).run ds := by
  simp [run]

/-- A call keeps what it keeps when it is accepted. -/
theorem after_keeps {P : Workbook → Prop} {w : Workbook} (h : P w)
    (hadd : ∀ name w' id, w.addSheet name = .ok (w', id) → P w')
    (hremove : ∀ id w' s, w.removeSheet id = .ok (w', s) → P w')
    (hrename : ∀ id name w' old, w.renameSheet id name = .ok (w', old) → P w') (c : SheetCall) : P (w.after c) := by
  cases c with
  | add name =>
    simp only [after]
    split
    · next w' id haccepted => exact hadd name w' id haccepted
    · exact h
  | remove id =>
    simp only [after]
    split
    · next w' s haccepted => exact hremove id w' s haccepted
    · exact h
  | rename id name =>
    simp only [after]
    split
    · next w' old haccepted => exact hrename id name w' old haccepted
    · exact h

theorem handles_append (w : Workbook) (cs ds : List SheetCall) :
    w.handles (cs ++ ds) = w.handles cs ++ (w.run cs).handles ds := by
  induction cs generalizing w with
  | nil => rfl
  | cons c cs ih => simp [handles, ih]

end Workbook

end Spreadsheet
