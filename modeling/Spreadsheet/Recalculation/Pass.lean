import Spreadsheet.Dependency.Reach
import Spreadsheet.Recalculation.Region
import Spreadsheet.Workbook.Settings

/-!
# Recalculation passes

A pass takes up cells in storage order. Before a cell is evaluated, the dirty cells that it reads are
taken up first, so evaluation only ever reads finished values. The cells that have been taken up and
not finished stand on a stack, each with the cells it still waits for.

When a cell waits for one that is on the stack already, they lie on a cycle, together with all cells
between them. Cells marked like this become circular errors when their turn comes and are not
evaluated.

A pass is a sequence of small steps (`Pass.step`). What is left of it (`Pass.left`) is the work on the
stack, and for each cell that was not taken up a bound on the work that taking it up would add. Every
step makes this smaller, so a pass ends.
-/

namespace Spreadsheet

/-- What a recalculation covers. -/
inductive PassScope where
  /-- One cell, with the dirty cells that it reads. -/
  | cell (p : Position)
  /-- Every dirty cell. -/
  | dirty
  /-- Every stored cell. -/
  | full
  deriving DecidableEq, Repr

/-- What a recalculation has done. -/
structure PassReport where
  /-- The number of cells that were computed. -/
  computed : Nat
  /-- The number of cells that became circular errors. -/
  cycles : Nat
  /-- Where values have changed since the last pass. -/
  changed : List Region

/-- Whether a report says that a cell has changed. -/
def PassReport.touches (r : PassReport) (p : Position) : Bool :=
  r.changed.any fun region => region.covers p

/-- What stays the same during a pass. -/
structure Surroundings where
  names : NamedAreas
  graph : DependencyGraph
  settings : Settings
  library : Library

/-- A cell that has been taken up, the cells that it waits for, in the order of its references, and
whether it has turned out to lie on a cycle. -/
structure Frame where
  cell : Position
  awaited : List Position
  cyclic : Bool

/-- The state of a pass. -/
structure Pass where
  workbook : Workbook
  /-- The cells that are not finished. -/
  dirty : PositionSet
  /-- The cells that have not been taken up. -/
  waiting : PositionSet
  /-- The cells that have been taken up and not finished, the last one first. -/
  stack : List Frame := []
  /-- The cells that have been computed, the last one first. -/
  computed : List Position := []
  /-- Those of them that became circular errors. -/
  circular : List Position := []
  /-- Those of them whose value has changed. -/
  changed : List Position := []

namespace Pass

variable (env : Surroundings)

/-- The value of a stored cell, from the values of the cells that it reads. A formula whose text has
not been read keeps its value. -/
def computedValue (w : Workbook) (p : Position) : Value :=
  match w.cell? p with
  | none => .empty
  | some c =>
    match c.content with
    | .constant v => v
    | .formula f =>
      match f.staticError? with
      | some e => .error e
      | none =>
        match f.tree? with
        | some x => evaluate (w.context env.names env.settings env.library) p.sheet x
        | none => c.value

/-- The cells of a set that the formula of a cell reads, in the order of its references and each
range in storage order. -/
def awaitedBy (unfinished : PositionSet) (reader : Position) : List Position :=
  (env.graph.precedentsOf reader).flatMap fun area =>
    match area with
    | .point p => if unfinished.contains p then [p] else []
    | .range _ _ => unfinished.toList.filter area.covers

/-- Takes up a cell. One that is no longer stored is only struck off. -/
def begin (s : Pass) (p : Position) : Pass :=
  match s.workbook.cell? p with
  | none => { s with dirty := s.dirty.erase p, waiting := s.waiting.erase p }
  | some _ =>
    { s with
      workbook := s.workbook.modifyCell p Cell.begin
      waiting := s.waiting.erase p
      stack := ⟨p, awaitedBy env s.dirty p, false⟩ :: s.stack }

/-- Finishes a cell that was on top of the stack. -/
def finish (s : Pass) (f : Frame) : Pass :=
  let v := if f.cyclic then .error Cause.cycle.toError else computedValue env s.workbook f.cell
  let isChange := (s.workbook.cell? f.cell).any fun c => c.wouldChange v
  { s with
    workbook := s.workbook.modifyCell f.cell fun c => c.finish v
    dirty := s.dirty.erase f.cell
    computed := f.cell :: s.computed
    circular := if f.cyclic then f.cell :: s.circular else s.circular
    changed := if isChange then f.cell :: s.changed else s.changed }

/-- Marks the frames from the top of the stack down to that of a cell. -/
def markCycle (p : Position) : List Frame → List Frame
  | [] => []
  | f :: below =>
    if f.cell = p then { f with cyclic := true } :: below
    else { f with cyclic := true } :: markCycle p below

/-- What is left to do on a stack: a step for every frame and for every cell that one waits for. -/
def work : List Frame → Nat
  | [] => 0
  | f :: below => f.awaited.length + 1 + work below

/-- One step; none when the stack is empty. -/
def step (s : Pass) : Option Pass :=
  match s.stack with
  | [] => none
  | ⟨cell, [], cyclic⟩ :: below => some (finish env { s with stack := below } ⟨cell, [], cyclic⟩)
  | ⟨cell, next :: awaited, cyclic⟩ :: below =>
    let stack := ⟨cell, awaited, cyclic⟩ :: below
    if s.waiting.contains next then some (begin env { s with stack } next)
    else if s.dirty.contains next && stack.any (fun f => f.cell == next) then
      some { s with stack := markCycle next stack }
    else some { s with stack }

/-- The steps that a cell can take up at most: for each area that its formula reads it waits for no more
cells than are not finished. -/
def demand (unfinished : PositionSet) (p : Position) : Nat :=
  (env.graph.precedentsOf p).length * (unfinished.size + 1) + 1

/-- What is left of a pass at most, with these cells on the stack, not finished and not taken up. -/
def left (stack : List Frame) (unfinished waiting : PositionSet) : Nat :=
  work stack + sumOver (demand env unfinished) waiting

theorem work_markCycle (p : Position) (stack : List Frame) : work (markCycle p stack) = work stack := by
  induction stack with
  | nil => rfl
  | cons f below ih =>
    unfold markCycle
    split <;> simp_all [work]

theorem length_awaitedBy (unfinished : PositionSet) (reader : Position) :
    (awaitedBy env unfinished reader).length + 1 ≤ demand env unfinished reader := by
  unfold awaitedBy demand
  apply Nat.succ_le_succ
  induction env.graph.precedentsOf reader with
  | nil => exact Nat.zero_le _
  | cons area areas ih =>
    rw [List.flatMap_cons, List.length_append, List.length_cons, Nat.succ_mul, Nat.add_comm]
    apply Nat.add_le_add ih
    cases area with
    | point p =>
      dsimp only
      split <;> simp
    | range sheet rect =>
      have hle := List.length_filter_le (Area.range sheet rect).covers unfinished.toList
      rw [Std.TreeSet.length_toList] at hle
      exact Nat.le_succ_of_le hle

/-- What is left does not grow when a cell is finished. -/
theorem left_erase_le (stack : List Frame) (unfinished waiting : PositionSet) (p : Position) :
    left env stack (unfinished.erase p) waiting ≤ left env stack unfinished waiting := by
  refine Nat.add_le_add_left (sumOver_le waiting fun q => ?_) _
  have hsize : (unfinished.erase p).size ≤ unfinished.size := Std.TreeSet.size_erase_le
  exact Nat.succ_le_succ (Nat.mul_le_mul_left _ (Nat.succ_le_succ hsize))

/-- Taking up a waiting cell leaves no more than before. -/
theorem left_begin (s : Pass) {p : Position} (h : s.waiting.contains p = true) :
    left env (begin env s p).stack (begin env s p).dirty (begin env s p).waiting ≤
      left env s.stack s.dirty s.waiting := by
  have hsum := sumOver_eq_of_mem (demand env s.dirty) (show p ∈ s.waiting from h)
  unfold begin
  cases s.workbook.cell? p with
  | none =>
    refine Nat.le_trans (left_erase_le env s.stack s.dirty (s.waiting.erase p) p) ?_
    unfold left
    omega
  | some c =>
    have hlength := length_awaitedBy env s.dirty p
    have hwork : work (⟨p, awaitedBy env s.dirty p, false⟩ :: s.stack) =
        (awaitedBy env s.dirty p).length + 1 + work s.stack := rfl
    unfold left
    dsimp only
    rw [hwork]
    omega

/-- Every step makes what is left smaller. -/
theorem left_step {s t : Pass} (h : step env s = some t) :
    left env t.stack t.dirty t.waiting < left env s.stack s.dirty s.waiting := by
  unfold step at h
  split at h
  · simp at h
  · next cell cyclic below hs =>
    cases h
    refine Nat.lt_of_le_of_lt (left_erase_le env below s.dirty s.waiting cell) ?_
    unfold left
    rw [hs]
    simp [work]
  · next cell next awaited cyclic below hs =>
    have hless : left env (⟨cell, awaited, cyclic⟩ :: below) s.dirty s.waiting <
        left env s.stack s.dirty s.waiting := by
      unfold left
      rw [hs]
      simp [work]
    dsimp only at h
    split at h
    · next hw =>
      cases h
      exact Nat.lt_of_le_of_lt (left_begin env { s with stack := ⟨cell, awaited, cyclic⟩ :: below } hw) hless
    · split at h
      · cases h
        unfold left at hless ⊢
        dsimp only
        rw [work_markCycle]
        exact hless
      · cases h
        exact hless

/-- Steps until the stack is empty. -/
def settle (s : Pass) : Pass :=
  match _h : step env s with
  | none => s
  | some t => settle t
termination_by left env s.stack s.dirty s.waiting
decreasing_by exact left_step env _h

/-- Computes a cell, if it is dirty, and the dirty cells that it reads, directly or through others. -/
def compute (s : Pass) (p : Position) : Pass :=
  if s.dirty.contains p then settle env (begin env { s with waiting := s.dirty } p) else s

/-- Marks a stored cell as dirty. -/
def mark (s : Pass) (p : Position) : Pass :=
  match s.workbook.cell? p with
  | some _ =>
    { s with workbook := s.workbook.modifyCell p Cell.markDirty, dirty := s.dirty.insert p }
  | none => s

/-- The dirty cells, sheet by sheet in the order of the workbook. -/
def inOrder (s : Pass) : List Position :=
  s.workbook.order.flatMap fun id => s.dirty.toList.filter fun p => p.sheet == id

/-- Computes what a scope covers. The cells on a cycle with a single cell are computed along with it,
since the cycle would not be seen otherwise. -/
def run (s : Pass) : PassScope → Pass
  | .cell p =>
    let targets := (env.graph.cycleMembers s.workbook p).insert p
    compute env (targets.foldl mark s) p
  | .dirty => s.inOrder.foldl (compute env) s
  | .full =>
    let s := s.workbook.positions.foldl mark s
    s.inOrder.foldl (compute env) s

end Pass

end Spreadsheet
