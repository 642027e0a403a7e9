import Mathlib.Data.List.Nodup
import Mathlib.Data.List.SplitBy
import Spreadsheet.Proofs.Sets
import Spreadsheet.Recalculation.Region

/-!
# Tiling: the regions of changed cells cover these cells and no others

Regions are made of runs of columns, row by row. The runs of a row cover its columns (`mem_runs`) and are
apart if the columns ascend (`runs_apart`), so each rectangle is continued by at most one run of the next
row, and the rectangles that are stacked from rows cover what the rows have (`covered_stackRows`). Sheets
and rows are found by splitting sorted cells (`mem_of_mem_splitBy`), and together the regions cover exactly
the cells that were given (`covered_ofCells`).
-/

namespace Spreadsheet

open Grid

namespace Region

/-! ### Runs -/

/-- A number before others joins their first run or is a run of its own. -/
theorem runs_cons (c : Nat) (cs : List Nat) :
    (∃ last rest, runs cs = (c + 1, last) :: rest ∧ runs (c :: cs) = (c, last) :: rest) ∨
      ((∀ run ∈ (runs cs).head?, run.1 ≠ c + 1) ∧ runs (c :: cs) = (c, c) :: runs cs) := by
  rw [runs]
  cases hruns : runs cs with
  | nil => exact Or.inr ⟨fun run hrun => (by cases hrun), rfl⟩
  | cons head rest =>
    obtain ⟨first, last⟩ := head
    dsimp only
    split
    · next hfirst => exact Or.inl ⟨last, rest, by rw [hfirst], rfl⟩
    · next hfirst =>
      refine Or.inr ⟨fun run hrun => ?_, rfl⟩
      cases hrun
      exact hfirst

theorem runs_le (cs : List Nat) : ∀ run ∈ runs cs, run.1 ≤ run.2 := by
  induction cs with
  | nil => exact fun run hrun => absurd hrun List.not_mem_nil
  | cons c cs ih =>
    rcases runs_cons c cs with ⟨last, rest, hruns, heq⟩ | ⟨-, heq⟩ <;> rw [heq] <;> intro run hrun
    · rw [hruns] at ih
      rcases List.mem_cons.mp hrun with rfl | hrun
      · exact Nat.le_of_succ_le (ih _ List.mem_cons_self)
      · exact ih run (List.mem_cons_of_mem _ hrun)
    · rcases List.mem_cons.mp hrun with rfl | hrun
      · exact Nat.le_refl c
      · exact ih run hrun

/-- **The runs of some numbers cover these numbers and no others.** -/
theorem mem_runs (cs : List Nat) (col : Nat) :
    (∃ run ∈ runs cs, run.1 ≤ col ∧ col ≤ run.2) ↔ col ∈ cs := by
  induction cs with
  | nil => simp [runs]
  | cons c cs ih =>
    rw [List.mem_cons, ← ih]
    rcases runs_cons c cs with ⟨last, rest, hruns, heq⟩ | ⟨-, heq⟩
    · have hlast := runs_le cs (c + 1, last) (hruns ▸ List.mem_cons_self)
      rw [heq, hruns, List.exists_mem_cons_iff, List.exists_mem_cons_iff, ← or_assoc]
      refine or_congr_left ?_
      dsimp only at hlast ⊢
      omega
    · rw [heq, List.exists_mem_cons_iff]
      refine or_congr_left ?_
      dsimp only
      omega

/-- The runs of ascending numbers ascend, with a gap between any two. -/
theorem runs_apart {cs : List Nat} (h : cs.Pairwise (· < ·)) :
    (runs cs).Pairwise fun a b => a.2 + 1 < b.1 := by
  induction cs with
  | nil => exact List.Pairwise.nil
  | cons c cs ih =>
    obtain ⟨hc, hcs⟩ := List.pairwise_cons.mp h
    have ih := ih hcs
    have hle := runs_le cs
    have habove : ∀ run ∈ runs cs, c < run.1 := fun run hrun =>
      hc run.1 ((mem_runs cs run.1).mp ⟨run, hrun, Nat.le_refl _, hle run hrun⟩)
    rcases runs_cons c cs with ⟨last, rest, hruns, heq⟩ | ⟨hgap, heq⟩ <;> rw [heq]
    · rw [hruns] at ih
      exact List.pairwise_cons.mpr (List.pairwise_cons.mp ih)
    · refine List.pairwise_cons.mpr ⟨fun run hrun => ?_, ih⟩
      cases hruns : runs cs with
      | nil =>
        rw [hruns] at hrun
        exact absurd hrun List.not_mem_nil
      | cons head rest =>
        rw [hruns] at hrun hgap ih hle habove
        have hhead := habove head List.mem_cons_self
        have hne := hgap head rfl
        rcases List.mem_cons.mp hrun with rfl | hrun
        · show c + 1 < run.1
          omega
        · have hnext := (List.pairwise_cons.mp ih).1 run hrun
          have hwidth := hle head List.mem_cons_self
          show c + 1 < run.1
          omega

/-! ### Rows -/

/-- A rectangle among some has a cell. -/
def Covered (rects : List Rect) (col row : Nat) : Prop := ∃ r ∈ rects, r.contains col row = true

theorem contains_iff {r : Rect} {col row : Nat} : r.contains col row = true ↔
    (r.left ≤ col ∧ col ≤ r.right) ∧ r.top ≤ row ∧ row ≤ r.bottom := by
  unfold Rect.contains
  simp only [Bool.and_eq_true, decide_eq_true_eq, and_assoc]

theorem continues_iff {r : Rect} {row : Nat} {run : Nat × Nat} :
    continues r row run = true ↔ r.left = run.1 ∧ r.right = run.2 ∧ r.bottom + 1 = row := by
  unfold continues
  simp only [Bool.and_eq_true, beq_iff_eq, and_assoc]

/-- A run that is stacked covers its own cells in its row and what it continues. -/
theorem contains_stack (above : List Rect) (row : Nat) {run : Nat × Nat} (hrun : run.1 ≤ run.2)
    (col line : Nat) : (stack above row run).contains col line = true ↔
      (line = row ∧ run.1 ≤ col ∧ col ≤ run.2) ∨
        ∃ r, above.find? (fun r => continues r row run) = some r ∧ r.contains col line = true := by
  unfold stack
  cases hfind : above.find? fun r => continues r row run with
  | none =>
    dsimp only
    rw [contains_iff]
    simp only [Rect.span, reduceCtorEq, false_and, exists_false, or_false]
    omega
  | some r =>
    have hcontinues : continues r row run = true := by simpa using List.find?_some hfind
    obtain ⟨hleft, hright, hbottom⟩ := continues_iff.mp hcontinues
    have htop := r.top_le_bottom
    dsimp only
    rw [contains_iff]
    simp only [Rect.span, Option.some.injEq, exists_eq_left', contains_iff]
    omega

/-- The left edge of a run that is stacked is its first column. -/
theorem left_stack (above : List Rect) (row : Nat) {run : Nat × Nat} (hrun : run.1 ≤ run.2) :
    (stack above row run).left = run.1 := by
  unfold stack
  split <;> exact Nat.min_eq_left hrun

/-- Of rectangles with different left edges, a run continues one at most. -/
theorem find?_continues {above : List Rect} (habove : (above.map Rect.left).Nodup) {r : Rect}
    (hr : r ∈ above) {row : Nat} {run : Nat × Nat} (h : continues r row run = true) :
    above.find? (fun r => continues r row run) = some r := by
  cases hfind : above.find? fun r => continues r row run with
  | none => exact absurd h (List.find?_eq_none.mp hfind r hr)
  | some s =>
    have hs : continues s row run = true := by simpa using List.find?_some hfind
    have hleft : s.left = r.left := (continues_iff.mp hs).1.trans (continues_iff.mp h).1.symm
    rw [List.inj_on_of_nodup_map habove (List.mem_of_find?_eq_some hfind) hr hleft]

/-- The left edges of the runs of a row that are stacked are different. -/
theorem nodup_stack (above : List Rect) (row : Nat) {cols : List Nat} (h : cols.Pairwise (· < ·)) :
    (((runs cols).map (stack above row)).map Rect.left).Nodup := by
  rw [List.map_map]
  refine List.pairwise_map.mpr ((runs_apart h).imp_of_mem fun {a b} ha hb hab => ?_)
  have hwidth := runs_le cols a ha
  show (stack above row a).left ≠ (stack above row b).left
  rw [left_stack above row hwidth, left_stack above row (runs_le cols b hb)]
  omega

/-- A row takes over what is above it and adds its own columns: the rectangles that it does not continue
are finished, and its runs are stacked on the others. -/
theorem covered_row {above : List Rect} (habove : (above.map Rect.left).Nodup) (row : Nat) (cols : List Nat)
    (col line : Nat) :
    Covered (above.filter fun r => !(runs cols).any (continues r row)) col line ∨
        Covered ((runs cols).map (stack above row)) col line ↔
      Covered above col line ∨ (row = line ∧ col ∈ cols) := by
  have hle := runs_le cols
  constructor
  · rintro (⟨r, hr, hcontains⟩ | ⟨r, hr, hcontains⟩)
    · exact Or.inl ⟨r, List.mem_of_mem_filter hr, hcontains⟩
    · obtain ⟨run, hrun, rfl⟩ := List.mem_map.mp hr
      rcases (contains_stack above row (hle run hrun) col line).mp hcontains with ⟨hline, hcol⟩ | ⟨r, hfind, hr⟩
      · exact Or.inr ⟨hline.symm, (mem_runs cols col).mp ⟨run, hrun, hcol⟩⟩
      · exact Or.inl ⟨r, List.mem_of_find?_eq_some hfind, hr⟩
  · rintro (⟨r, hr, hcontains⟩ | ⟨hline, hcol⟩)
    · by_cases hany : (runs cols).any (continues r row) = true
      · obtain ⟨run, hrun, hcontinues⟩ := List.any_eq_true.mp hany
        refine Or.inr ⟨_, List.mem_map_of_mem hrun, (contains_stack above row (hle run hrun) col line).mpr ?_⟩
        exact Or.inr ⟨r, find?_continues habove hr hcontinues, hcontains⟩
      · refine Or.inl ⟨r, List.mem_filter.mpr ⟨hr, ?_⟩, hcontains⟩
        rw [Bool.not_eq_true] at hany
        rw [hany]
        rfl
    · obtain ⟨run, hrun, hcol⟩ := (mem_runs cols col).mpr hcol
      refine Or.inr ⟨_, List.mem_map_of_mem hrun, (contains_stack above row (hle run hrun) col line).mpr ?_⟩
      exact Or.inl ⟨hline.symm, hcol⟩

theorem covered_append {rects rects' : List Rect} {col row : Nat} :
    Covered (rects ++ rects') col row ↔ Covered rects col row ∨ Covered rects' col row := by
  unfold Covered
  simp only [List.mem_append, or_and_right, exists_or]

/-- **The rectangles stacked from rows cover what the rows have**, and what was there above them. -/
theorem covered_stackRows {above : List Rect} {rows : List (Nat × List Nat)}
    (habove : (above.map Rect.left).Nodup) (hrows : ∀ entry ∈ rows, entry.2.Pairwise (· < ·))
    (col line : Nat) :
    Covered (stackRows above rows) col line ↔
      Covered above col line ∨ ∃ entry ∈ rows, entry.1 = line ∧ col ∈ entry.2 := by
  induction rows generalizing above with
  | nil => simp [stackRows]
  | cons entry rows ih =>
    have hcols := hrows entry List.mem_cons_self
    have hrest := ih (nodup_stack above entry.1 hcols) fun entry hentry =>
      hrows entry (List.mem_cons_of_mem _ hentry)
    unfold stackRows
    dsimp only
    rw [covered_append, hrest, ← or_assoc, covered_row habove, List.exists_mem_cons_iff, or_assoc]

/-! ### Sorted cells -/

section Split

variable {α β : Type} [DecidableEq β] {key : α → β} {xs group : List α}

/-- Splitting a list where a key changes yields groups with one key each. -/
theorem key_eq_of_mem_splitBy (h : group ∈ xs.splitBy fun x y => key x == key y) {x y : α} (hx : x ∈ group)
    (hy : y ∈ group) : key x = key y := by
  have hchain : (group.map key).IsChain (· = ·) :=
    List.isChain_map_of_isChain key (fun _ _ hxy => beq_iff_eq.mp hxy) (List.isChain_of_mem_splitBy h)
  have hpairwise : (group.map key).Pairwise (· = ·) := List.isChain_iff_pairwise.mp hchain
  by_cases heq : key x = key y
  · exact heq
  · exact hpairwise.forall (List.mem_map_of_mem hx) (List.mem_map_of_mem hy) heq

/-- Every element is in one of the groups. -/
theorem exists_mem_splitBy {r : α → α → Bool} {x : α} : (∃ group ∈ xs.splitBy r, x ∈ group) ↔ x ∈ xs := by
  rw [← List.mem_flatten, List.flatten_splitBy]

theorem sublist_of_mem_splitBy {r : α → α → Bool} (h : group ∈ xs.splitBy r) : group.Sublist xs := by
  have hsub := List.sublist_flatten_of_mem h
  rwa [List.flatten_splitBy] at hsub

end Split

/-- Cells in their order on one sheet ascend row by row. -/
theorem lt_of_compare {p q : Position} (h : compare p q = .lt) (hsheet : p.sheet = q.sheet)
    (hrow : p.row = q.row) : p.col < q.col := by
  have h : (compare p.sheet q.sheet).then
    ((compare p.row q.row).then (compare p.col q.col)) = .lt := h
  rw [hsheet, hrow, Std.compare_self, Std.compare_self] at h
  exact Std.compare_eq_lt.mp h

theorem mem_rowsOf {ps : List Position} {line col : Nat} :
    (∃ entry ∈ rowsOf ps, entry.1 = line ∧ col ∈ entry.2) ↔ ∃ p ∈ ps, p.row = line ∧ p.col = col := by
  unfold rowsOf
  simp only [List.mem_filterMap, Option.map_eq_some_iff]
  constructor
  · rintro ⟨entry, ⟨group, hgroup, p, hp, rfl⟩, hline, hcol⟩
    obtain ⟨q, hq, hcol⟩ := List.mem_map.mp hcol
    have hmem := exists_mem_splitBy.mp ⟨group, hgroup, hq⟩
    exact ⟨q, hmem, (key_eq_of_mem_splitBy hgroup hq (List.mem_of_head? hp)).trans hline, hcol⟩
  · rintro ⟨p, hp, hline, hcol⟩
    obtain ⟨group, hgroup, hmem⟩ := exists_mem_splitBy.mpr hp
    cases group with
    | nil => exact absurd hmem List.not_mem_nil
    | cons q rest =>
      refine ⟨_, ⟨q :: rest, hgroup, q, rfl, rfl⟩, ?_, List.mem_map.mpr ⟨p, hmem, hcol⟩⟩
      exact (key_eq_of_mem_splitBy hgroup List.mem_cons_self hmem).trans hline

/-- The columns of each row ascend. -/
theorem ascending_rowsOf {ps : List Position} (hsorted : ps.Pairwise fun p q => compare p q = .lt)
    (hsheet : ∀ p ∈ ps, ∀ q ∈ ps, p.sheet = q.sheet) :
    ∀ entry ∈ rowsOf ps, entry.2.Pairwise (· < ·) := by
  intro entry hentry
  unfold rowsOf at hentry
  obtain ⟨group, hgroup, hentry⟩ := List.mem_filterMap.mp hentry
  obtain ⟨p, -, rfl⟩ := Option.map_eq_some_iff.mp hentry
  have hsub := sublist_of_mem_splitBy hgroup
  refine List.pairwise_map.mpr ((hsorted.sublist hsub).imp_of_mem fun {q r} hq hr hlt => ?_)
  exact lt_of_compare hlt (hsheet q (hsub.subset hq) r (hsub.subset hr)) (key_eq_of_mem_splitBy hgroup hq hr)

/-- The rectangles of the cells on one sheet cover these cells and no others. -/
theorem covered_sheet {first : Position} {rest : List Position}
    (hsorted : (first :: rest).Pairwise fun p q => compare p q = .lt)
    (hsheet : ∀ p ∈ first :: rest, ∀ q ∈ first :: rest, p.sheet = q.sheet) {p : Position} :
    (∃ r ∈ (stackRows [] (rowsOf (first :: rest))).map fun rect => (⟨first.sheet, rect⟩ : Region),
      r.covers p = true) ↔ p ∈ first :: rest := by
  have hnil : (([] : List Rect).map Rect.left).Nodup := List.nodup_nil
  have hrects := covered_stackRows hnil (ascending_rowsOf hsorted hsheet) p.col p.row
  rw [mem_rowsOf] at hrects
  unfold covers
  simp only [List.mem_map, exists_exists_and_eq_and, Bool.and_eq_true, beq_iff_eq]
  constructor
  · rintro ⟨rect, hrect, hfirst, hcontains⟩
    rcases hrects.mp ⟨rect, hrect, hcontains⟩ with ⟨r, hr, -⟩ | ⟨q, hq, hrow, hcol⟩
    · exact absurd hr List.not_mem_nil
    · have heq : q = p := by
        obtain ⟨sheet, row, col⟩ := q
        obtain ⟨sheet', row', col'⟩ := p
        have hsame := hsheet _ hq first List.mem_cons_self
        dsimp only at hfirst hrow hcol hsame
        rw [hrow, hcol, hsame, hfirst]
      exact heq ▸ hq
  · intro hp
    obtain ⟨rect, hrect, hcontains⟩ := hrects.mpr (Or.inr ⟨p, hp, rfl, rfl⟩)
    exact ⟨rect, hrect, hsheet first List.mem_cons_self p hp, hcontains⟩

/-- **The regions of some cells cover these cells and no others.** -/
theorem covered_ofCells {cells : List Position} {p : Position} :
    (∃ r ∈ ofCells cells, r.covers p = true) ↔ p ∈ cells := by
  unfold ofCells
  dsimp only
  simp only [List.mem_mergeSort, List.mem_flatMap]
  rw [← mem_ofList_iff cells, ← Std.TreeSet.mem_toList,
    ← exists_mem_splitBy (r := fun p q => p.sheet == q.sheet)]
  have hordered := Std.TreeSet.ordered_toList (t := Std.TreeSet.ofList cells)
  have hgroup : ∀ first rest,
      (first :: rest) ∈ (Std.TreeSet.ofList cells).toList.splitBy (fun p q => p.sheet == q.sheet) →
        ((∃ r ∈ (stackRows [] (rowsOf (first :: rest))).map fun rect => (⟨first.sheet, rect⟩ : Region),
          r.covers p = true) ↔ p ∈ first :: rest) := fun first rest h =>
    covered_sheet (hordered.sublist (sublist_of_mem_splitBy h))
      fun p hp q hq => key_eq_of_mem_splitBy h hp hq
  constructor
  · rintro ⟨r, ⟨group, hmem, hr⟩, hcovers⟩
    cases group with
    | nil => exact absurd hr List.not_mem_nil
    | cons first rest => exact ⟨_, hmem, (hgroup first rest hmem).mp ⟨r, hr, hcovers⟩⟩
  · rintro ⟨group, hmem, hp⟩
    cases group with
    | nil => exact absurd hp List.not_mem_nil
    | cons first rest =>
      obtain ⟨r, hr, hcovers⟩ := (hgroup first rest hmem).mpr hp
      exact ⟨r, ⟨_, hmem, hr⟩, hcovers⟩

end Region

end Spreadsheet
