import Mathlib.Data.List.Perm.Basic
import Spreadsheet.Proofs.Stacking

/-!
# Sweeping: the regions of cells are found with line numbers of 32 bits

Regions are found in one sweep over the rows of a sheet. It keeps the rectangles that may still grow in a list
in which it looks for the one that a run continues; that one is taken out, and the last of the list takes its
place. Twice a line is compared with the line behind another, and there may be no such line: `nextLine?` has no
answer then, and neither has a sweep that needs it.

The sweep has an answer for all cells whose lines can be counted, and makes the rectangles that are stacked row
by row (`sweep?_eq`): a line is asked for only where a greater one has been seen. So the regions it finds are
the maximal tiling of the cells (`tiles`).
-/

namespace Spreadsheet

open Grid

namespace Region

/-! ### A sweep over rows -/

/-- The line behind a line, if it can be counted. -/
def nextLine? (line : Nat) : Option Nat := if line < lastLine then some (line + 1) else none

/-- The runs of some columns, of which those from `first` to `last` have been read. -/
def runsFrom? (first last : Nat) : List Nat → Option (List (Nat × Nat))
  | [] => some [(first, last)]
  | col :: cols => do
    let next ← nextLine? last
    if col = next then
      runsFrom? first col cols
    else
      let rest ← runsFrom? col col cols
      some ((first, last) :: rest)

/-- The runs of ascending columns. -/
def runs? : List Nat → Option (List (Nat × Nat))
  | [] => some []
  | col :: cols => runsFrom? col col cols

/-- Whether a run continues a rectangle. Where the columns are not the same the lines are not compared. -/
def continues? (row : Nat) (run : Nat × Nat) (r : Rect) : Option Bool :=
  if r.left = run.1 ∧ r.right = run.2 then (nextLine? r.bottom).map fun next => next == row else some false

/-- Where the first rectangle stands that a run continues. -/
def position? (row : Nat) (run : Nat × Nat) : List Rect → Option (Option Nat)
  | [] => some none
  | r :: above => do
    let found ← continues? row run r
    if found then
      some (some 0)
    else
      let rest ← position? row run above
      some (rest.map fun i => i + 1)

/-- A list without the element at a place, where the last one stands then. -/
def swapRemove {α : Type} (xs : List α) (i : Nat) : List α :=
  match xs.getLast? with
  | none => []
  | some last => (xs.set i last).dropLast

/-- The rectangle of a run, and the rectangles that may still grow without the one that it continues. -/
def grow? (row : Nat) (run : Nat × Nat) (above : List Rect) : Option (Rect × List Rect) := do
  let found ← position? row run above
  match found.bind fun i => above[i]?.map fun r => (i, r) with
  | some (i, r) => some (Rect.span r.left r.top r.right row, swapRemove above i)
  | none => some (Rect.span run.1 row run.2 row, above)

/-- The rectangles of the runs of a row, and those that no run continues. -/
def sweepRow? (row : Nat) (above : List Rect) : List (Nat × Nat) → Option (List Rect × List Rect)
  | [] => some ([], above)
  | run :: runs => do
    let (r, above) ← grow? row run above
    let (grown, finished) ← sweepRow? row above runs
    some (r :: grown, finished)

/-- The rectangles of some rows. -/
def sweep? (above : List Rect) : List (Nat × List Nat) → Option (List Rect)
  | [] => some above
  | (row, cols) :: rows => do
    let found ← runs? cols
    let (grown, finished) ← sweepRow? row above found
    let rest ← sweep? grown rows
    some (finished ++ rest)

/-- The regions of the cells of one sheet. -/
def ofSheet? (ps : List Position) : Option (List Region) :=
  match ps with
  | [] => some []
  | p :: _ => (sweep? [] (rowsOf ps)).map fun rects => rects.map fun rect => ⟨p.sheet, rect⟩

/-- The regions that some cells make up, found with line numbers of 32 bits. -/
def ofCells? (cells : List Position) : Option (List Region) :=
  ((sheetsOf cells).mapM ofSheet?).map fun regions => regions.flatten.mergeSort fun a b => (order a b).isLE

/-! ### No line is missing -/

theorem nextLine?_of_lt {line next : Nat} (h : line < next) (hnext : next ≤ lastLine) :
    nextLine? line = some (line + 1) :=
  if_pos (Nat.lt_of_lt_of_le h hnext)

/-- The first run of some columns begins with the first of them. -/
theorem runs_cons_eq (col : Nat) (cols : List Nat) : ∃ last rest, runs (col :: cols) = (col, last) :: rest := by
  rcases runs_cons col cols with ⟨last, rest, -, heq⟩ | ⟨-, heq⟩
  · exact ⟨last, rest, heq⟩
  · exact ⟨col, runs cols, heq⟩

/-- If the columns ascend, the first run of those behind one that has been read is taken over. -/
theorem runsFrom?_eq {cols : List Nat} {last last' : Nat} {rest : List (Nat × Nat)} (first : Nat)
    (hcols : (last :: cols).Pairwise (· < ·)) (hcount : ∀ col ∈ cols, col ≤ lastLine)
    (hruns : runs (last :: cols) = (last, last') :: rest) :
    runsFrom? first last cols = some ((first, last') :: rest) := by
  induction cols generalizing first last last' rest with
  | nil =>
    cases hruns
    rfl
  | cons col cols ih =>
    obtain ⟨hlast, hcols⟩ := List.pairwise_cons.mp hcols
    have ih : ∀ first {last' rest}, runs (col :: cols) = (col, last') :: rest →
        runsFrom? first col cols = some ((first, last') :: rest) := fun first _ _ =>
      ih first hcols fun c hc => hcount c (List.mem_cons_of_mem _ hc)
    obtain ⟨next, rest', hnext⟩ := runs_cons_eq col cols
    unfold runsFrom?
    rw [nextLine?_of_lt (hlast col List.mem_cons_self) (hcount col List.mem_cons_self), Option.bind_eq_bind,
      Option.bind_some]
    rcases runs_cons last (col :: cols) with ⟨last'', rest'', hjoined, heq⟩ | ⟨hgap, heq⟩ <;> rw [hruns] at heq
    · cases heq
      rw [hnext] at hjoined
      cases hjoined
      rw [if_pos rfl]
      exact ih first hnext
    · cases heq
      rw [hnext] at hgap ⊢
      rw [if_neg (hgap _ rfl), ih col hnext]
      rfl

theorem runs?_eq {cols : List Nat} (hcols : cols.Pairwise (· < ·)) (hcount : ∀ col ∈ cols, col ≤ lastLine) :
    runs? cols = some (runs cols) := by
  cases cols with
  | nil => rfl
  | cons col cols =>
    obtain ⟨last, rest, hruns⟩ := runs_cons_eq col cols
    rw [hruns]
    exact runsFrom?_eq col hcols (fun c hc => hcount c (List.mem_cons_of_mem _ hc)) hruns

section Row

variable {row : Nat} {above rest : List Rect}

theorem continues?_eq (hrow : row ≤ lastLine) {r : Rect} (hr : r.bottom < row) (run : Nat × Nat) :
    continues? row run r = some (continues r row run) := by
  unfold continues?
  split
  · next hcols =>
    rw [nextLine?_of_lt hr hrow, Option.map_some]
    unfold continues
    rw [beq_iff_eq.mpr hcols.1, beq_iff_eq.mpr hcols.2]
    rfl
  · next hcols =>
    rw [Bool.eq_false_iff.mpr fun h => hcols ⟨(continues_iff.mp h).1, (continues_iff.mp h).2.1⟩]

theorem position?_eq (hrow : row ≤ lastLine) (habove : ∀ r ∈ above, r.bottom < row) (run : Nat × Nat) :
    position? row run above = some (above.findIdx? fun r => continues r row run) := by
  induction above with
  | nil => rfl
  | cons r above ih =>
    unfold position?
    rw [continues?_eq hrow (habove r List.mem_cons_self), ih fun s hs => habove s (List.mem_cons_of_mem _ hs),
      List.findIdx?_cons, Option.bind_eq_bind, Option.bind_some]
    split <;> rfl

/-- What is taken out and what stays are what was there. -/
theorem perm_swapRemove {α : Type} {xs : List α} {i : Nat} {x : α} (h : xs[i]? = some x) :
    (x :: swapRemove xs i).Perm xs := by
  rcases xs.eq_nil_or_concat' with rfl | ⟨ys, z, rfl⟩
  · cases h
  have hi : i < ys.length + 1 := by simpa using (List.getElem?_eq_some_iff.mp h).1
  have hx : ys[i]?.getD z = x := by
    rcases Nat.lt_succ_iff_lt_or_eq.mp hi with hlt | rfl
    · rw [List.getElem?_append_left hlt] at h
      rw [h, Option.getD_some]
    · rw [List.getElem?_concat_length] at h
      rw [List.getElem?_eq_none (Nat.le_refl _), Option.getD_none]
      exact Option.some.inj h
  have hrest : swapRemove (ys ++ [z]) i = ys.set i z := by
    unfold swapRemove
    rw [List.getLast?_concat]
    dsimp only
    rcases Nat.lt_succ_iff_lt_or_eq.mp hi with hlt | rfl
    · rw [List.set_append_left _ _ hlt, List.dropLast_concat]
    · rw [List.set_append_right _ _ (Nat.le_refl _), Nat.sub_self, List.set_eq_of_length_le (Nat.le_refl _)]
      exact List.dropLast_concat
  rw [hrest, ← hx]
  exact (List.getD_set_perm_cons ys i z).trans (List.perm_append_singleton z ys).symm

/-- **A run is put where it belongs**, and what it does not continue stays open. -/
theorem grow?_eq (hrow : row ≤ lastLine) (habove : ∀ r ∈ above, r.bottom < row)
    (hnodup : (above.map Rect.left).Nodup) (run : Nat × Nat) :
    ∃ rest, grow? row run above = some (stack above row run, rest) ∧
      rest.Perm (above.filter fun r => !continues r row run) := by
  unfold grow? stack
  rw [position?_eq hrow habove, Option.bind_eq_bind, Option.bind_some]
  cases hfind : above.findIdx? fun r => continues r row run with
  | none =>
    have hnone := List.findIdx?_eq_none_iff.mp hfind
    rw [List.find?_eq_none.mpr fun r hr => by rw [hnone r hr]; exact Bool.false_ne_true]
    refine ⟨above, rfl, ?_⟩
    rw [List.filter_eq_self.mpr fun r hr => by rw [hnone r hr]; rfl]
  | some i =>
    obtain ⟨hi, hcontinues, -⟩ := List.findIdx?_eq_some_iff_getElem.mp hfind
    obtain ⟨hleft, hright, -⟩ := continues_iff.mp hcontinues
    have hget := List.getElem?_eq_getElem hi
    have hperm := perm_swapRemove hget
    rw [find?_continues hnodup (List.getElem_mem hi) hcontinues, Option.bind_some, hget]
    refine ⟨swapRemove above i, ?_, ?_⟩
    · dsimp only [Option.map_some]
      rw [hleft, hright]
    -- no other rectangle has the left edge of the one that is taken out
    · have hothers := (hperm.map Rect.left).nodup_iff.mpr hnodup
      have hrest : ∀ s ∈ swapRemove above i, continues s row run = false := by
        intro s hs
        refine Bool.eq_false_iff.mpr fun hs' => (List.nodup_cons.mp hothers).1 ?_
        rw [hleft, ← (continues_iff.mp hs').1]
        exact List.mem_map_of_mem hs
      have hfilter := hperm.filter fun r => !continues r row run
      rw [List.filter_cons_of_neg (by rw [hcontinues]; exact Bool.false_ne_true),
        List.filter_eq_self.mpr fun s hs => by rw [hrest s hs]; rfl] at hfilter
      exact hfilter

/-- What another run continues does not matter for a run. -/
theorem stack_congr (hnodup : (above.map Rect.left).Nodup) {run run' : Nat × Nat} (hne : run.1 ≠ run'.1)
    (hrest : rest.Perm (above.filter fun r => !continues r row run)) :
    stack rest row run' = stack above row run' := by
  have hnodup' : (rest.map Rect.left).Nodup :=
    (hrest.map Rect.left).nodup_iff.mpr (hnodup.sublist (List.filter_sublist.map Rect.left))
  have hfind : rest.find? (fun r => continues r row run') = above.find? fun r => continues r row run' := by
    cases hfind : above.find? fun r => continues r row run' with
    | none =>
      exact List.find?_eq_none.mpr fun r hr =>
        List.find?_eq_none.mp hfind r (List.mem_of_mem_filter (hrest.subset hr))
    | some r =>
      have hcontinues : continues r row run' = true := by simpa using List.find?_some hfind
      refine find?_continues hnodup' (hrest.mem_iff.mpr (List.mem_filter.mpr ⟨List.mem_of_find?_eq_some hfind, ?_⟩))
        hcontinues
      rw [Bool.not_eq_true', Bool.eq_false_iff]
      exact fun h => hne ((continues_iff.mp h).1.symm.trans (continues_iff.mp hcontinues).1)
  unfold stack
  rw [hfind]

/-- **A row is swept without a line missing**: its runs are stacked, and what they do not continue is finished. -/
theorem sweepRow?_eq (hrow : row ≤ lastLine) {found : List (Nat × Nat)} (hfound : found.Pairwise fun a b => a.1 ≠ b.1)
    (habove : ∀ r ∈ above, r.bottom < row) (hnodup : (above.map Rect.left).Nodup) :
    ∃ finished, sweepRow? row above found = some (found.map (stack above row), finished) ∧
      finished.Perm (above.filter fun r => !found.any (continues r row)) := by
  induction found generalizing above with
  | nil => exact ⟨above, rfl, by simp⟩
  | cons run found ih =>
    obtain ⟨hne, hfound⟩ := List.pairwise_cons.mp hfound
    obtain ⟨rest, hgrow, hrest⟩ := grow?_eq hrow habove hnodup run
    obtain ⟨finished, hsweep, hfinished⟩ := ih hfound
      (fun r hr => habove r (List.mem_of_mem_filter (hrest.subset hr)))
      ((hrest.map Rect.left).nodup_iff.mpr (hnodup.sublist (List.filter_sublist.map Rect.left)))
    refine ⟨finished, ?_, hfinished.trans ?_⟩
    · unfold sweepRow?
      rw [hgrow, Option.bind_eq_bind, Option.bind_some]
      dsimp only
      rw [hsweep, List.map_congr_left fun run' hrun' => stack_congr hnodup (hne run' hrun') hrest]
      rfl
    · refine (hrest.filter _).trans (List.Perm.of_eq ?_)
      rw [List.filter_filter]
      refine List.filter_congr fun r _ => ?_
      rw [List.any_cons, Bool.not_or, Bool.and_comm]

end Row

/-- **Rows are swept without a line missing**, and the rectangles are those that are stacked row by row. -/
theorem sweep?_eq {rows : List (Nat × List Nat)} {above : List Rect} (hlines : rows.Pairwise fun a b => a.1 < b.1)
    (hcols : ∀ entry ∈ rows, entry.2.Pairwise (· < ·))
    (hcount : ∀ entry ∈ rows, entry.1 ≤ lastLine ∧ ∀ col ∈ entry.2, col ≤ lastLine)
    (habove : ∀ r ∈ above, ∀ entry ∈ rows, r.bottom < entry.1) (hnodup : (above.map Rect.left).Nodup) :
    ∃ rects, sweep? above rows = some rects ∧ rects.Perm (stackRows above rows) := by
  induction rows generalizing above with
  | nil => exact ⟨above, rfl, List.Perm.refl _⟩
  | cons entry rows ih =>
    obtain ⟨row, cols⟩ := entry
    obtain ⟨hbelow, hlines⟩ := List.pairwise_cons.mp hlines
    obtain ⟨hrow, hcount'⟩ := hcount _ List.mem_cons_self
    have hcols' := hcols _ List.mem_cons_self
    have hwidth := runs_le cols
    have hfirst : (runs cols).Pairwise fun a b => a.1 ≠ b.1 := (runs_apart hcols').imp_of_mem fun {a b} ha _ hlt => by
      have := hwidth a ha
      omega
    obtain ⟨finished, hsweep, hfinished⟩ :=
      sweepRow?_eq hrow hfirst (fun r hr => habove r hr _ List.mem_cons_self) hnodup
    have hstacked : ∀ r ∈ (runs cols).map (stack above row), ∀ entry ∈ rows, r.bottom < entry.1 := by
      intro r hr entry hentry
      obtain ⟨run, hrun, rfl⟩ := List.mem_map.mp hr
      rw [(stack_eq above row (hwidth run hrun)).2.2.1]
      exact hbelow entry hentry
    obtain ⟨rest, hrest, hperm⟩ := ih hlines (fun entry hentry => hcols entry (List.mem_cons_of_mem _ hentry))
      (fun entry hentry => hcount entry (List.mem_cons_of_mem _ hentry)) hstacked (nodup_stack above row hcols')
    refine ⟨finished ++ rest, ?_, ?_⟩
    · unfold sweep?
      rw [runs?_eq hcols' hcount', Option.bind_eq_bind, Option.bind_some, hsweep, Option.bind_eq_bind, Option.bind_some]
      dsimp only
      rw [hrest]
      rfl
    · unfold stackRows
      exact hfinished.append hperm

/-- Every line of the rows of some cells is a line of one of them. -/
theorem lines_of_mem_rowsOf {P : Nat → Prop} {ps : List Position} (h : ∀ p ∈ ps, P p.row ∧ P p.col) :
    ∀ entry ∈ rowsOf ps, P entry.1 ∧ ∀ col ∈ entry.2, P col := by
  intro entry hentry
  unfold rowsOf at hentry
  obtain ⟨group, hgroup, hentry⟩ := List.mem_filterMap.mp hentry
  obtain ⟨p, hp, rfl⟩ := Option.map_eq_some_iff.mp hentry
  have hsub := (sublist_of_mem_splitBy hgroup).subset
  refine ⟨(h p (hsub (List.mem_of_head? hp))).1, fun col hcol => ?_⟩
  obtain ⟨q, hq, rfl⟩ := List.mem_map.mp hcol
  exact (h q (hsub hq)).2

/-- The cells of a sheet are swept without a line missing. -/
theorem ofSheet?_eq {ps : List Position} (hsorted : ps.Pairwise fun p q => compare p q = .lt)
    (hsheet : ∀ p ∈ ps, ∀ q ∈ ps, p.sheet = q.sheet) (hcount : ∀ p ∈ ps, p.row ≤ lastLine ∧ p.col ≤ lastLine) :
    ∃ regions, ofSheet? ps = some regions ∧ regions.Perm (ofSheet ps) := by
  cases ps with
  | nil => exact ⟨[], rfl, List.Perm.refl _⟩
  | cons first rest =>
    have hlines := lines_of_mem_rowsOf (P := fun line => line ≤ lastLine) hcount
    have hnone : ∀ r ∈ ([] : List Rect), ∀ entry ∈ rowsOf (first :: rest), r.bottom < entry.1 := fun r hr =>
      absurd hr List.not_mem_nil
    obtain ⟨rects, hsweep, hperm⟩ :=
      sweep?_eq (lines_rowsOf hsorted hsheet) (ascending_rowsOf hsorted hsheet) hlines hnone List.nodup_nil
    refine ⟨_, ?_, hperm.map fun rect => (⟨first.sheet, rect⟩ : Region)⟩
    unfold ofSheet?
    rw [hsweep]
    rfl

/-- The sheets are swept one after the other. -/
theorem mapM_ofSheet?_eq {sheets : List (List Position)}
    (h : ∀ ps ∈ sheets, ∃ regions, ofSheet? ps = some regions ∧ regions.Perm (ofSheet ps)) :
    ∃ regions, sheets.mapM ofSheet? = some regions ∧ regions.flatten.Perm (sheets.flatMap ofSheet) := by
  induction sheets with
  | nil => exact ⟨[], rfl, List.Perm.refl _⟩
  | cons ps sheets ih =>
    obtain ⟨first, hfirst, hperm⟩ := h ps List.mem_cons_self
    obtain ⟨regions, hregions, hperm'⟩ := ih fun ps hps => h ps (List.mem_cons_of_mem _ hps)
    refine ⟨first :: regions, ?_, ?_⟩
    · rw [List.mapM_cons, hfirst, hregions]
      rfl
    · rw [List.flatten_cons, List.flatMap_cons]
      exact hperm.append hperm'

/-- **Cells whose lines can be counted have their regions found**: no line behind one of theirs is missing. -/
theorem ofCells?_eq {cells : List Position} (hcount : ∀ p ∈ cells, p.row ≤ lastLine ∧ p.col ≤ lastLine) :
    ofCells? cells = some (ofCells cells) := by
  have hsheets : ∀ ps ∈ sheetsOf cells, ∃ regions, ofSheet? ps = some regions ∧ regions.Perm (ofSheet ps) :=
    fun ps hps => ofSheet?_eq (ascending_of_mem_sheetsOf hps)
      (fun p hp q hq => sheet_eq_of_mem_sheetsOf hps hq hp)
      fun p hp => hcount p ((mem_of_mem_sheetsOf hps hp rfl).mp hp)
  obtain ⟨regions, hregions, hperm⟩ := mapM_ofSheet?_eq hsheets
  have hnodup : regions.flatten.Nodup := hperm.nodup_iff.mpr nodup_flatMap_ofSheet
  unfold ofCells?
  rw [hregions, Option.map_some, ofCells_eq]
  refine congrArg some (eq_of_ascending (ascending_mergeSort hnodup) (ascending_mergeSort nodup_flatMap_ofSheet) ?_)
  intro r
  rw [List.mem_mergeSort, List.mem_mergeSort, hperm.mem_iff]

/-- **The regions of cells are their maximal tiling**, whichever way the cells are given, and no line is missing
when they are found. -/
theorem tiles (cells : List Position) (hcount : ∀ p ∈ cells, p.row ≤ lastLine ∧ p.col ≤ lastLine) :
    IsMaximalTiling cells (ofCells cells) ∧
      (∀ cells' : List Position, (∀ p, p ∈ cells' ↔ p ∈ cells) → ofCells cells' = ofCells cells) ∧
      ofCells? cells = some (ofCells cells) := by
  have htiling := isMaximalTiling_ofCells cells
  refine ⟨htiling, fun cells' hcells => ?_, ofCells?_eq hcount⟩
  exact ((isMaximalTiling_ofCells cells').congr fun p => (hcells p).symm).unique htiling

/-- Cells in the last corner that can be counted, which go on in the row above it, with a gap in a row, a gap
between rows, one cell given twice, and one on another sheet. -/
def cornerCells : List Position :=
  [⟨⟨0, 0⟩, lastLine, lastLine⟩, ⟨⟨0, 0⟩, lastLine - 1, lastLine⟩, ⟨⟨1, 0⟩, lastLine, lastLine⟩,
    ⟨⟨0, 0⟩, lastLine, lastLine - 1⟩, ⟨⟨0, 0⟩, lastLine - 1, lastLine - 1⟩, ⟨⟨0, 0⟩, lastLine, lastLine⟩,
    ⟨⟨0, 0⟩, lastLine - 3, lastLine⟩, ⟨⟨0, 0⟩, lastLine - 1, 1⟩]

/-- The regions of these cells. -/
def cornerRegions : List Region :=
  [⟨⟨0, 0⟩, Rect.single lastLine (lastLine - 3)⟩, ⟨⟨0, 0⟩, Rect.single 1 (lastLine - 1)⟩,
    ⟨⟨0, 0⟩, Rect.span (lastLine - 1) (lastLine - 1) lastLine lastLine⟩, ⟨⟨1, 0⟩, Rect.single lastLine lastLine⟩]

theorem tiles_cornerCells :
    (∀ p ∈ cornerCells, p.row ≤ lastLine ∧ p.col ≤ lastLine) ∧ IsMaximalTiling cornerCells cornerRegions ∧
      ofCells cornerCells.reverse = cornerRegions ∧ ofCells? cornerCells = some cornerRegions := by
  have hcount : ∀ p ∈ cornerCells, p.row ≤ lastLine ∧ p.col ≤ lastLine := by decide
  have hregions : ofCells cornerCells = cornerRegions := by
    have hsheets : (sheetsOf cornerCells).flatMap ofSheet = cornerRegions := by decide +kernel
    rw [ofCells_eq, hsheets]
    exact List.mergeSort_of_pairwise (by decide)
  obtain ⟨htiling, hsame, hfound⟩ := tiles cornerCells hcount
  rw [hregions] at htiling hsame hfound
  exact ⟨hcount, htiling, hsame _ fun _ => List.mem_reverse, hfound⟩

end Region

end Spreadsheet
