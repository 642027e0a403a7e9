import Spreadsheet.Dependency.Graph
import Spreadsheet.Workbook.Basic

/-!
# Cells that can be reached

Which cells depend on which, not only directly. `reach` walks from some positions to their successors
as long as it meets positions of a given finite set that it has not visited. What is left of a walk is
the positions it has still to go to, and the successors of those that it has not visited: each step
takes one of them away, so the walk ends, whatever cycles there are. In one direction the successors of
a cell are its readers, in the other they are the cells it reads.
-/

namespace Spreadsheet

/-- A number for each position of a set, all added up. -/
def sumOver (f : Position → Nat) (s : PositionSet) : Nat := s.toList.foldr (fun p n => f p + n) 0

/-- One position more in a set adds its number. -/
theorem sumOver_eq_of_mem (f : Position → Nat) {s : PositionSet} {p : Position} (h : p ∈ s) :
    sumOver f s = f p + sumOver f (s.erase p) := by
  have hnodup : ∀ t : PositionSet, t.toList.Nodup := fun t =>
    t.distinct_toList.imp fun hne heq => hne (Std.compare_eq_iff_eq.mpr heq)
  have hmem : ∀ q, q ∈ s.toList ↔ q ∈ p :: (s.erase p).toList := by
    intro q
    rw [List.mem_cons, Std.TreeSet.mem_toList, Std.TreeSet.mem_toList, Std.TreeSet.mem_erase, ne_eq,
      Std.compare_eq_iff_eq]
    by_cases hq : q = p
    · simp [hq, h]
    · simp [hq, Ne.symm hq]
  have hperm : s.toList.Perm (p :: (s.erase p).toList) := by
    refine (List.perm_ext_iff_of_nodup (hnodup s) (List.nodup_cons.mpr ⟨?_, hnodup _⟩)).mpr hmem
    rw [Std.TreeSet.mem_toList]
    simp
  exact hperm.foldr_eq' (fun q _ r _ n => Nat.add_left_comm (f r) (f q) n) 0

theorem sumOver_le {f g : Position → Nat} (s : PositionSet) (h : ∀ p, f p ≤ g p) :
    sumOver f s ≤ sumOver g s := by
  unfold sumOver
  induction s.toList with
  | nil => exact Nat.le_refl _
  | cons p ps ih => exact Nat.add_le_add (h p) ih

/-- The positions of `unvisited` that a walk from `todo` visits, added to those visited so far. -/
def reach (next : Position → List Position) (unvisited : PositionSet) (todo : List Position)
    (visited : PositionSet) : PositionSet :=
  match todo with
  | [] => visited
  | p :: todo =>
    if _h : unvisited.contains p then
      reach next (unvisited.erase p) (next p ++ todo) (visited.insert p)
    else reach next unvisited todo visited
termination_by todo.length + sumOver (fun p => (next p).length) unvisited
decreasing_by
  · have hsum := sumOver_eq_of_mem (fun p => (next p).length) (show p ∈ unvisited by simpa using _h)
    rw [hsum, List.length_append, List.length_cons]
    omega
  · rw [List.length_cons]
    omega

namespace DependencyGraph

/-- Some cells and all cells that read one of them, directly or through others. -/
def closure (g : DependencyGraph) (seeds : List Position) : PositionSet :=
  reach (fun p => (g.readersOf p).toList) (seeds.foldl (fun s p => s.insert p) g.allReaders) seeds {}

/-- The cells that a formula reads: every single cell, and of a range the cells that are stored. -/
def cellsReadBy (g : DependencyGraph) (w : Workbook) (reader : Position) : List Position :=
  (g.precedentsOf reader).flatMap fun area =>
    match area with
    | .point p => [p]
    | .range sheet rect =>
      match w.sheet? sheet with
      | some s => (s.spotsIn rect).map (·.on sheet)
      | none => []

/-- All cells that a cell reads, directly or through others. -/
def sources (g : DependencyGraph) (w : Workbook) (p : Position) : PositionSet :=
  let known := w.positions.foldl (fun s q => s.insert q) (Std.TreeSet.ofList g.pointsRead)
  reach (g.cellsReadBy w) known (g.cellsReadBy w p) {}

/-- The cells on a cycle with a cell: those that read it and are read by it. -/
def cycleMembers (g : DependencyGraph) (w : Workbook) (p : Position) : PositionSet :=
  let downstream := g.closure [p]
  if downstream.size ≤ 1 then {} else (g.sources w p).filter downstream.contains

end DependencyGraph

end Spreadsheet
