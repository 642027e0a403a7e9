import Mathlib.Data.List.Nodup
import Mathlib.Data.List.Sort
import Mathlib.Data.List.SplitBy
import Spreadsheet.Proofs.Tiling

/-!
# Stacking: regions are as large as they can be, and no others are

The rectangles that are made row by row are stacks of runs. While the rows are taken one after the other,
`Open` says what is known of the rectangles that may still grow: they are stacks of the rows done so far, they
begin where no run of the same columns is above them, and every run of the last row is at the bottom of one.
A row keeps that (`Open.next`), so every rectangle that comes out is a stack that ends where it has to
(`isStack_of_mem_stackRows`).

`IsMaximalTiling` says what this comes to for regions: they are in order, they are apart, they cover the cells
and no others, each of their rows is a run that is as long as possible, and no two of them could be put
together. Only one list of regions is such a tiling of given cells (`IsMaximalTiling.unique`), and the regions
that cells make up are it (`isMaximalTiling_ofCells`).
-/

namespace Spreadsheet

open Grid

namespace Region

/-- Of two different members of a list the one stands before the other. -/
theorem or_of_pairwise {α : Type} {R : α → α → Prop} {xs : List α} (h : xs.Pairwise R) {a b : α} (ha : a ∈ xs)
    (hb : b ∈ xs) (hne : a ≠ b) : R a b ∨ R b a := by
  have hsymm : Std.Symm fun a b => R a b ∨ R b a := ⟨fun _ _ => Or.symm⟩
  exact (h.imp Or.inl : xs.Pairwise fun a b => R a b ∨ R b a).forall ha hb hne

/-! ### Runs that are as long as possible -/

/-- The columns from `first` to `last` are all among some columns, and the ones next to them are not. -/
structure IsRun (among : Nat → Prop) (first last : Nat) : Prop where
  inside : ∀ col, first ≤ col → col ≤ last → among col
  before : ∀ col, col + 1 = first → ¬among col
  behind : ¬among (last + 1)

/-- Of two runs that share a column neither goes beyond the other. -/
theorem IsRun.within {among : Nat → Prop} {first last first' last' col : Nat} (h : IsRun among first last)
    (h' : IsRun among first' last') (hcol : first ≤ col ∧ col ≤ last) (hcol' : first' ≤ col ∧ col ≤ last') :
    first ≤ first' ∧ last' ≤ last := by
  constructor
  · by_contra hlt
    exact h.before (first - 1) (by omega) (h'.inside (first - 1) (by omega) (by omega))
  · by_contra hlt
    exact h.behind (h'.inside (last + 1) (by omega) (by omega))

/-- Two runs that share a column are one. -/
theorem IsRun.unique {among : Nat → Prop} {first last first' last' col : Nat} (h : IsRun among first last)
    (h' : IsRun among first' last') (hcol : first ≤ col ∧ col ≤ last) (hcol' : first' ≤ col ∧ col ≤ last') :
    first = first' ∧ last = last' := by
  obtain ⟨hfirst, hlast⟩ := h.within h' hcol hcol'
  obtain ⟨hfirst', hlast'⟩ := h'.within h hcol' hcol
  omega

/-- The runs of ascending numbers are as long as possible. -/
theorem isRun_of_mem_runs {cs : List Nat} (h : cs.Pairwise (· < ·)) {run : Nat × Nat} (hrun : run ∈ runs cs) :
    IsRun (· ∈ cs) run.1 run.2 := by
  have hwidth := runs_le cs run hrun
  -- a column next to the run would be in another run, but all others are further away
  have hnear : ∀ col ∈ cs, ¬(col + 1 = run.1 ∨ col = run.2 + 1) := by
    intro col hcol hnext
    obtain ⟨run', hrun', hcol'⟩ := (mem_runs cs col).mpr hcol
    have hne : run ≠ run' := by
      rintro rfl
      omega
    rcases or_of_pairwise (runs_apart h) hrun hrun' hne with hlt | hlt <;> omega
  constructor
  · exact fun col hfirst hlast => (mem_runs cs col).mp ⟨run, hrun, hfirst, hlast⟩
  · exact fun col hnext hcol => hnear col hcol (Or.inl hnext)
  · exact fun hcol => hnear _ hcol (Or.inr rfl)

/-! ### Stacks of runs -/

/-- Some rows have a run in a line. -/
def RunAt (rows : List (Nat × List Nat)) (line : Nat) (run : Nat × Nat) : Prop :=
  ∃ entry ∈ rows, entry.1 = line ∧ run ∈ runs entry.2

/-- A rectangle is a stack of runs that goes as far up and down as there are such runs. -/
def IsStack (rows : List (Nat × List Nat)) (r : Rect) : Prop :=
  IsRun (fun line => RunAt rows line (r.left, r.right)) r.top r.bottom

/-- A run that is stacked has its own columns, ends in its row, and begins where the rectangle begins that it
continues, or in its row if there is none. -/
theorem stack_eq (above : List Rect) (row : Nat) {run : Nat × Nat} (hrun : run.1 ≤ run.2) :
    (stack above row run).left = run.1 ∧ (stack above row run).right = run.2 ∧
      (stack above row run).bottom = row ∧
      ((∃ r ∈ above, continues r row run = true ∧ (stack above row run).top = r.top) ∨
        (∀ r ∈ above, continues r row run = false) ∧ (stack above row run).top = row) := by
  unfold stack
  cases hfind : above.find? fun r => continues r row run with
  | none =>
    refine ⟨Nat.min_eq_left hrun, Nat.max_eq_right hrun, Nat.max_self row, Or.inr ⟨fun r hr => ?_, Nat.min_self row⟩⟩
    exact Bool.eq_false_iff.mpr (List.find?_eq_none.mp hfind r hr)
  | some r =>
    have hcontinues : continues r row run = true := by simpa using List.find?_some hfind
    have htop : r.top ≤ row := by
      have hbottom := (continues_iff.mp hcontinues).2.2
      have := r.top_le_bottom
      omega
    exact ⟨Nat.min_eq_left hrun, Nat.max_eq_right hrun, Nat.max_eq_right htop,
      Or.inl ⟨r, List.mem_of_find?_eq_some hfind, hcontinues, Nat.min_eq_left htop⟩⟩

/-- What is known of the rectangles that may still grow when some rows are done. -/
structure Open (done : List (Nat × List Nat)) (above : List Rect) : Prop where
  stacked : ∀ r ∈ above, ∀ line, r.top ≤ line → line ≤ r.bottom → RunAt done line (r.left, r.right)
  begins : ∀ r ∈ above, ∀ line, line + 1 = r.top → ¬RunAt done line (r.left, r.right)
  last : ∀ r ∈ above, ∀ entry ∈ done, entry.1 ≤ r.bottom
  /-- Every run of the last row is at the bottom of a rectangle. -/
  all : ∀ entry ∈ done, (∀ other ∈ done, other.1 ≤ entry.1) → ∀ run ∈ runs entry.2,
    ∃ r ∈ above, r.left = run.1 ∧ r.right = run.2 ∧ r.bottom = entry.1

theorem open_nil : Open [] [] where
  stacked _ hr := absurd hr List.not_mem_nil
  begins _ hr := absurd hr List.not_mem_nil
  last _ hr := absurd hr List.not_mem_nil
  all _ hentry := absurd hentry List.not_mem_nil

section Rows

variable {done rows : List (Nat × List Nat)} {above : List Rect} {entry : Nat × List Nat}

theorem runAt_append {line : Nat} {run : Nat × Nat} :
    RunAt (done ++ rows) line run ↔ RunAt done line run ∨ RunAt rows line run := by
  unfold RunAt
  simp only [List.mem_append, or_and_right, exists_or]

theorem runAt_cons {line : Nat} {run : Nat × Nat} :
    RunAt (entry :: rows) line run ↔ (entry.1 = line ∧ run ∈ runs entry.2) ∨ RunAt rows line run := by
  unfold RunAt
  rw [List.exists_mem_cons_iff]

/-- A rectangle that may still grow ends in a row that is done. -/
theorem Open.bottom_lt (h : Open done above) {row : Nat} (hlines : ∀ other ∈ done, other.1 < row) {r : Rect}
    (hr : r ∈ above) : r.bottom < row := by
  obtain ⟨other, hother, hline, -⟩ := h.stacked r hr r.bottom r.top_le_bottom (Nat.le_refl _)
  exact hline ▸ hlines other hother

/-- A run of a row stands in every line of the rectangle into which it is stacked. -/
theorem Open.runAt_stack (h : Open done above) {run : Nat × Nat} (hrun : run ∈ runs entry.2) {line : Nat}
    (htop : (stack above entry.1 run).top ≤ line) (hbottom : line ≤ entry.1) : RunAt (done ++ [entry]) line run := by
  obtain ⟨-, -, -, hbegin⟩ := stack_eq above entry.1 (runs_le _ run hrun)
  rcases Nat.eq_or_lt_of_le hbottom with rfl | hlt
  · exact ⟨entry, List.mem_append_right _ (List.mem_singleton.mpr rfl), rfl, hrun⟩
  · rcases hbegin with ⟨r, hr, hcontinues, hfirst⟩ | ⟨-, hfirst⟩
    · obtain ⟨hleft, hright, hend⟩ := continues_iff.mp hcontinues
      have hline := h.stacked r hr line (by omega) (by omega)
      rw [hleft, hright] at hline
      exact runAt_append.mpr (Or.inl hline)
    · omega

/-- A run of a row does not stand above the rectangle into which it is stacked: there it would be at the bottom of
a rectangle that may still grow, and would have been stacked into that one. -/
theorem Open.not_runAt_stack (h : Open done above) (hlines : ∀ other ∈ done, other.1 < entry.1) {run : Nat × Nat}
    (hrun : run ∈ runs entry.2) {line : Nat} (htop : line + 1 = (stack above entry.1 run).top) :
    ¬RunAt (done ++ [entry]) line run := by
  obtain ⟨-, -, -, hbegin⟩ := stack_eq above entry.1 (runs_le _ run hrun)
  rw [runAt_append, runAt_cons]
  rcases hbegin with ⟨r, hr, hcontinues, hfirst⟩ | ⟨hnone, hfirst⟩
  · obtain ⟨hleft, hright, hend⟩ := continues_iff.mp hcontinues
    have hrows := r.top_le_bottom
    rintro (hdone | ⟨hline, -⟩ | ⟨_, hmem, -⟩)
    · exact h.begins r hr line (htop.trans hfirst) (by rw [hleft, hright]; exact hdone)
    · omega
    · exact absurd hmem List.not_mem_nil
  · rintro (⟨other, hother, hline, hmem⟩ | ⟨hline, -⟩ | ⟨_, hmem, -⟩)
    · have hlast : ∀ entry' ∈ done, entry'.1 ≤ other.1 := fun entry' hentry' => by
        have := hlines entry' hentry'
        omega
      obtain ⟨r, hr, hleft, hright, hbottom⟩ := h.all other hother hlast run hmem
      have hcontinues := continues_iff.mpr ⟨hleft, hright, (by omega : r.bottom + 1 = entry.1)⟩
      rw [hnone r hr] at hcontinues
      cases hcontinues
    · omega
    · exact absurd hmem List.not_mem_nil

/-- **A row keeps what is known of the open rectangles.** -/
theorem Open.next (h : Open done above) (hlines : ∀ other ∈ done, other.1 < entry.1) :
    Open (done ++ [entry]) ((runs entry.2).map (stack above entry.1)) := by
  constructor
  case stacked =>
    intro r hr line htop hbottom
    obtain ⟨run, hrun, rfl⟩ := List.mem_map.mp hr
    obtain ⟨hleft, hright, hlast, -⟩ := stack_eq above entry.1 (runs_le _ run hrun)
    rw [hleft, hright]
    exact h.runAt_stack hrun htop (hlast ▸ hbottom)
  case begins =>
    intro r hr line htop
    obtain ⟨run, hrun, rfl⟩ := List.mem_map.mp hr
    obtain ⟨hleft, hright, -, -⟩ := stack_eq above entry.1 (runs_le _ run hrun)
    rw [hleft, hright]
    exact h.not_runAt_stack hlines hrun htop
  case last =>
    intro r hr other hother
    obtain ⟨run, hrun, rfl⟩ := List.mem_map.mp hr
    rw [(stack_eq above entry.1 (runs_le _ run hrun)).2.2.1]
    rcases List.mem_append.mp hother with hother | hother
    · exact Nat.le_of_lt (hlines other hother)
    · rw [List.mem_singleton.mp hother]
  case all =>
    intro other hother hlast run hrun
    rcases List.mem_append.mp hother with hdone | hother
    · have hlt := hlines other hdone
      have hle := hlast entry (List.mem_append_right _ (List.mem_singleton.mpr rfl))
      omega
    · rw [List.mem_singleton.mp hother] at hrun ⊢
      obtain ⟨hleft, hright, hbottom, -⟩ := stack_eq above entry.1 (runs_le _ run hrun)
      exact ⟨_, List.mem_map_of_mem hrun, hleft, hright, hbottom⟩

/-- A rectangle that no run of the next row continues is finished. -/
theorem Open.isStack (h : Open done above) (hlines : (done ++ rows).Pairwise fun a b => a.1 < b.1) {r : Rect}
    (hr : r ∈ above) (hfinished : ∀ entry ∈ rows.head?, ∀ run ∈ runs entry.2, continues r entry.1 run = false) :
    IsStack (done ++ rows) r := by
  obtain ⟨-, hrows, hbelow⟩ := List.pairwise_append.mp hlines
  have hlower : ∀ line, line ≤ r.bottom → ¬RunAt rows line (r.left, r.right) := by
    rintro line hline ⟨entry, hentry, rfl, -⟩
    have hlt := h.bottom_lt (fun other hother => hbelow other hother entry hentry) hr
    omega
  refine IsRun.mk ?_ ?_ ?_
  · exact fun line htop hbottom => runAt_append.mpr (Or.inl (h.stacked r hr line htop hbottom))
  · intro line htop hrun
    have hwithin := r.top_le_bottom
    rcases runAt_append.mp hrun with hdone | hrest
    · exact h.begins r hr line htop hdone
    · exact hlower line (by omega) hrest
  · intro hrun
    rcases runAt_append.mp hrun with ⟨entry, hentry, hline, -⟩ | ⟨entry, hentry, hline, hmem⟩
    · have hle := h.last r hr entry hentry
      omega
    cases rows with
    | nil => exact absurd hentry List.not_mem_nil
    | cons first rest =>
      rcases List.mem_cons.mp hentry with rfl | hentry
      · have hcontinues : continues r entry.1 (r.left, r.right) = true := continues_iff.mpr ⟨rfl, rfl, hline.symm⟩
        rw [hfinished entry rfl _ hmem] at hcontinues
        cases hcontinues
      -- the line behind the rectangle would be between two lines that stand side by side
      · have hlt := (List.pairwise_cons.mp hrows).1 entry hentry
        have hlt' := h.bottom_lt (fun other hother => hbelow other hother first List.mem_cons_self) hr
        omega

/-- **Every rectangle that is made from rows is a stack of their runs.** -/
theorem isStack_of_mem_stackRows (h : Open done above) (hlines : (done ++ rows).Pairwise fun a b => a.1 < b.1)
    {r : Rect} (hr : r ∈ stackRows above rows) : IsStack (done ++ rows) r := by
  induction rows generalizing done above with
  | nil => exact h.isStack hlines hr fun entry hentry => by cases hentry
  | cons entry rows ih =>
    unfold stackRows at hr
    rcases List.mem_append.mp hr with hfinished | hrest
    · obtain ⟨hr, hnone⟩ := List.mem_filter.mp hfinished
      refine h.isStack hlines hr ?_
      rintro _ ⟨⟩ run hrun
      rw [Bool.not_eq_true', List.any_eq_false] at hnone
      exact Bool.eq_false_iff.mpr (hnone run hrun)
    · have hbefore : ∀ other ∈ done, other.1 < entry.1 := fun other hother =>
        (List.pairwise_append.mp hlines).2.2 other hother entry List.mem_cons_self
      rw [List.append_cons] at hlines ⊢
      exact ih (h.next hbefore) hlines hrest

/-- What is made from rows ends in the first of them, or further down. -/
theorem le_bottom_of_mem_stackRows {row : Nat} (habove : ∀ r ∈ above, row ≤ r.bottom)
    (hrows : ∀ entry ∈ rows, row ≤ entry.1) {r : Rect} (hr : r ∈ stackRows above rows) : row ≤ r.bottom := by
  induction rows generalizing above with
  | nil => exact habove r hr
  | cons entry rows ih =>
    unfold stackRows at hr
    rcases List.mem_append.mp hr with hfinished | hrest
    · exact habove r (List.mem_of_mem_filter hfinished)
    · refine ih (fun s hs => ?_) (fun other hother => hrows other (List.mem_cons_of_mem _ hother)) hrest
      obtain ⟨run, hrun, rfl⟩ := List.mem_map.mp hs
      rw [(stack_eq above entry.1 (runs_le _ run hrun)).2.2.1]
      exact hrows entry List.mem_cons_self

/-- No rectangle is made twice. -/
theorem nodup_stackRows (h : Open done above) (hlines : (done ++ rows).Pairwise fun a b => a.1 < b.1)
    (habove : (above.map Rect.left).Nodup) (hcols : ∀ entry ∈ rows, entry.2.Pairwise (· < ·)) :
    (stackRows above rows).Nodup := by
  induction rows generalizing done above with
  | nil => exact habove.of_map
  | cons entry rows ih =>
    obtain ⟨-, hrows, hbelow⟩ := List.pairwise_append.mp hlines
    have hbefore : ∀ other ∈ done, other.1 < entry.1 := fun other hother =>
      hbelow other hother entry List.mem_cons_self
    unfold stackRows
    refine List.nodup_append.mpr ⟨habove.of_map.filter _, ?_, fun r hr s hs => ?_⟩
    · rw [List.append_cons] at hlines
      exact ih (h.next hbefore) hlines (nodup_stack above entry.1 (hcols entry List.mem_cons_self))
        fun other hother => hcols other (List.mem_cons_of_mem _ hother)
    · rintro rfl
      have hlt := h.bottom_lt hbefore (List.mem_of_mem_filter hr)
      have hle : entry.1 ≤ r.bottom := by
        refine le_bottom_of_mem_stackRows (fun s hs => ?_) (fun other hother => ?_) hs
        · obtain ⟨run, hrun, rfl⟩ := List.mem_map.mp hs
          exact Nat.le_of_eq (stack_eq above entry.1 (runs_le _ run hrun)).2.2.1.symm
        · exact Nat.le_of_lt ((List.pairwise_cons.mp hrows).1 other hother)
      omega

end Rows

/-! ### Groups of sorted cells -/

section Groups

variable {α β : Type} [DecidableEq β] [Ord β] [Std.TransOrd β] [Std.LawfulEqOrd β] {key : α → β} {xs : List α}

/-- Groups with one key each that stand in the order of their keys, and of which no two neighbours have the same
key, have ascending keys. -/
theorem pairwise_lt_of_neighbours {groups : List (List α)} (hfilled : ∀ g ∈ groups, g ≠ [])
    (hkey : ∀ g ∈ groups, ∀ x ∈ g, ∀ y ∈ g, key x = key y)
    (hle : groups.Pairwise fun a b => ∀ x ∈ a, ∀ y ∈ b, (compare (key x) (key y)).isLE = true)
    (hne : groups.IsChain fun a b => ∃ ha hb, (key (a.getLast ha) == key (b.head hb)) = false) :
    groups.Pairwise fun a b => ∀ x ∈ a, ∀ y ∈ b, compare (key x) (key y) = .lt := by
  induction groups with
  | nil => exact List.Pairwise.nil
  | cons a groups ih =>
    obtain ⟨hle, hles⟩ := List.pairwise_cons.mp hle
    have hrest := ih (fun g hg => hfilled g (List.mem_cons_of_mem _ hg))
      (fun g hg => hkey g (List.mem_cons_of_mem _ hg)) hles hne.tail
    refine List.pairwise_cons.mpr ⟨?_, hrest⟩
    cases groups with
    | nil => exact fun b hb => absurd hb List.not_mem_nil
    | cons next groups =>
      have hnext : ∀ x ∈ a, ∀ y ∈ next, compare (key x) (key y) = .lt := by
        intro x hx y hy
        obtain ⟨ha, hb, hother⟩ := (List.isChain_cons_cons.mp hne).1
        refine (Ordering.isLE_iff_eq_lt_or_eq_eq.mp (hle next List.mem_cons_self x hx y hy)).resolve_right fun heq => ?_
        rw [beq_eq_false_iff_ne] at hother
        refine hother ?_
        rw [hkey a List.mem_cons_self _ (List.getLast_mem ha) x hx, Std.compare_eq_iff_eq.mp heq,
          hkey next (List.mem_cons_of_mem _ List.mem_cons_self) y hy _ (List.head_mem hb)]
      intro b hb x hx y hy
      rcases List.mem_cons.mp hb with rfl | hb
      · exact hnext x hx y hy
      · obtain ⟨z, hz⟩ := List.exists_mem_of_ne_nil next (hfilled next (List.mem_cons_of_mem _ List.mem_cons_self))
        exact Std.TransCmp.lt_trans (hnext x hx z hz) ((List.pairwise_cons.mp hrest).1 b hb z hz y hy)

/-- Splitting a list that is sorted by a key yields groups with ascending keys. -/
theorem pairwise_splitBy (hsorted : xs.Pairwise fun x y => (compare (key x) (key y)).isLE = true) :
    (xs.splitBy fun x y => key x == key y).Pairwise fun a b => ∀ x ∈ a, ∀ y ∈ b, compare (key x) (key y) = .lt := by
  rw [← List.flatten_splitBy (fun x y => key x == key y) xs, List.pairwise_flatten] at hsorted
  exact pairwise_lt_of_neighbours (fun g hg => List.ne_nil_of_mem_splitBy hg)
    (fun g hg x hx y hy => key_eq_of_mem_splitBy hg hx hy) hsorted.2
    (List.isChain_getLast_head_splitBy (fun x y => key x == key y) xs)

/-- An element with the key of a group is in it. -/
theorem mem_of_mem_splitBy (hsorted : xs.Pairwise fun x y => (compare (key x) (key y)).isLE = true) {group : List α}
    (hgroup : group ∈ xs.splitBy fun x y => key x == key y) {x y : α} (hx : x ∈ group) (hy : y ∈ xs)
    (hkey : key y = key x) : y ∈ group := by
  obtain ⟨other, hother, hmem⟩ := exists_mem_splitBy.mpr hy
  by_cases hsame : group = other
  · rw [hsame]
    exact hmem
  · rcases or_of_pairwise (pairwise_splitBy hsorted) hgroup hother hsame with hlt | hlt
    · have hlt := hlt x hx y hmem
      rw [hkey, Std.compare_self] at hlt
      cases hlt
    · have hlt := hlt y hmem x hx
      rw [hkey, Std.compare_self] at hlt
      cases hlt

end Groups

/-- Cells in their order stand sheet by sheet. -/
theorem isLE_sheet_of_compare {p q : Position} (h : compare p q = .lt) : (compare p.sheet q.sheet).isLE = true := by
  have h : (compare p.sheet q.sheet).then
    ((compare p.row q.row).then (compare p.col q.col)) = .lt := h
  rcases Ordering.then_eq_lt.mp h with hlt | ⟨heq, -⟩
  · rw [hlt]
    rfl
  · rw [heq]
    rfl

/-- Cells in their order on one sheet stand row by row. -/
theorem isLE_row_of_compare {p q : Position} (h : compare p q = .lt) (hsheet : p.sheet = q.sheet) :
    (compare p.row q.row).isLE = true := by
  have h : (compare p.sheet q.sheet).then
    ((compare p.row q.row).then (compare p.col q.col)) = .lt := h
  rw [hsheet, Std.compare_self, Ordering.eq_then] at h
  rcases Ordering.then_eq_lt.mp h with hlt | ⟨heq, -⟩
  · rw [hlt]
    rfl
  · rw [heq]
    rfl

/-! ### The cells of a sheet -/

/-- What is sorted and on one sheet falls into rows one below the other. -/
theorem lines_rowsOf {ps : List Position} (hsorted : ps.Pairwise fun p q => compare p q = .lt)
    (hsheet : ∀ p ∈ ps, ∀ q ∈ ps, p.sheet = q.sheet) : (rowsOf ps).Pairwise fun a b => a.1 < b.1 := by
  have hrows : ps.Pairwise fun p q => (compare p.row q.row).isLE = true :=
    hsorted.imp_of_mem fun {p q} hp hq hlt => isLE_row_of_compare hlt (hsheet p hp q hq)
  unfold rowsOf
  refine List.pairwise_filterMap.mpr ((pairwise_splitBy hrows).imp fun {a b} hlt x hx y hy => ?_)
  obtain ⟨p, hp, rfl⟩ := Option.map_eq_some_iff.mp hx
  obtain ⟨q, hq, rfl⟩ := Option.map_eq_some_iff.mp hy
  exact Std.compare_eq_lt.mp (hlt p (List.mem_of_head? hp) q (List.mem_of_head? hq))

/-- The columns of a row are those of the cells in its line. -/
theorem mem_iff_mem_row {ps : List Position} (hsorted : ps.Pairwise fun p q => compare p q = .lt) {sheet : SheetId}
    (hsheet : ∀ p ∈ ps, p.sheet = sheet) {entry : Nat × List Nat} (hentry : entry ∈ rowsOf ps) (col : Nat) :
    (⟨sheet, entry.1, col⟩ : Position) ∈ ps ↔ col ∈ entry.2 := by
  have hsame : ∀ p ∈ ps, ∀ q ∈ ps, p.sheet = q.sheet := fun p hp q hq => (hsheet p hp).trans (hsheet q hq).symm
  constructor
  · intro hp
    obtain ⟨other, hother, hline, hcol⟩ := mem_rowsOf.mpr ⟨_, hp, rfl, rfl⟩
    have hline : other.1 = entry.1 := hline
    by_cases hne : entry = other
    · exact hne ▸ hcol
    · rcases or_of_pairwise (lines_rowsOf hsorted hsame) hentry hother hne with hlt | hlt <;> omega
  · intro hcol
    obtain ⟨p, hp, hline, rfl⟩ := mem_rowsOf.mp ⟨entry, hentry, rfl, hcol⟩
    rw [← hsheet p hp, ← hline]
    exact hp

/-- **The rows of the cells of a sheet have the runs of these cells.** -/
theorem runAt_rowsOf {ps : List Position} (hsorted : ps.Pairwise fun p q => compare p q = .lt) {sheet : SheetId}
    (hsheet : ∀ p ∈ ps, p.sheet = sheet) {line : Nat} {run : Nat × Nat} :
    RunAt (rowsOf ps) line run ↔
      run.1 ≤ run.2 ∧ IsRun (fun col => (⟨sheet, line, col⟩ : Position) ∈ ps) run.1 run.2 := by
  have hcols := ascending_rowsOf hsorted fun p hp q hq => (hsheet p hp).trans (hsheet q hq).symm
  have hrow : ∀ entry ∈ rowsOf ps, (fun col => (⟨sheet, entry.1, col⟩ : Position) ∈ ps) = (· ∈ entry.2) :=
    fun entry hentry => funext fun col => propext (mem_iff_mem_row hsorted hsheet hentry col)
  constructor
  · rintro ⟨entry, hentry, rfl, hrun⟩
    rw [hrow entry hentry]
    exact ⟨runs_le _ run hrun, isRun_of_mem_runs (hcols entry hentry) hrun⟩
  · rintro ⟨hle, hmaximal⟩
    obtain ⟨entry, hentry, hline, hcol⟩ :=
      mem_rowsOf.mpr ⟨_, hmaximal.inside run.1 (Nat.le_refl _) hle, rfl, rfl⟩
    obtain rfl : entry.1 = line := hline
    obtain ⟨run', hrun', hwithin⟩ := (mem_runs entry.2 run.1).mpr hcol
    rw [hrow entry hentry] at hmaximal
    obtain ⟨hfirst, hlast⟩ :=
      (isRun_of_mem_runs (hcols entry hentry) hrun').unique hmaximal hwithin ⟨Nat.le_refl _, hle⟩
    exact ⟨entry, hentry, rfl, Prod.ext hfirst hlast ▸ hrun'⟩

/-! ### The order of regions -/

instance : Std.TransOrd Rect :=
  inferInstanceAs (Std.TransCmp (compareLex (compareOn Rect.top) (compareLex (compareOn Rect.left)
    (compareLex (compareOn Rect.bottom) (compareOn Rect.right)))))

instance : Std.LawfulEqOrd Rect where
  eq_of_compare {r s} h := by
    have h : (compare r.top s.top).then ((compare r.left s.left).then
      ((compare r.bottom s.bottom).then (compare r.right s.right))) = .eq := h
    simp only [Ordering.then_eq_eq, Std.compare_eq_iff_eq] at h
    cases r; cases s; simp_all

instance : Std.TransCmp order :=
  inferInstanceAs (Std.TransCmp (compareLex (compareOn Region.sheet) (compareOn Region.rect)))

instance : Std.LawfulEqCmp order where
  eq_of_compare {a b} h := by
    have h : (compare a.sheet b.sheet).then (compare a.rect b.rect) = .eq := h
    rw [Ordering.then_eq_eq, Std.compare_eq_iff_eq, Std.compare_eq_iff_eq] at h
    cases a; cases b; simp_all

theorem order_self (r : Region) : order r r = .eq := Std.ReflCmp.compare_self

/-- Different regions ascend when they are sorted. -/
theorem ascending_mergeSort {regions : List Region} (h : regions.Nodup) :
    (regions.mergeSort fun a b => (order a b).isLE).Pairwise fun a b => order a b = .lt := by
  have htotal : ∀ a b : Region, ((order a b).isLE || (order b a).isLE) = true := by
    intro a b
    rw [Bool.or_eq_true]
    cases hab : order a b with
    | lt => exact Or.inl rfl
    | eq => exact Or.inl rfl
    | gt =>
      rw [Std.OrientedCmp.lt_of_gt hab]
      exact Or.inr rfl
  have hsorted := List.pairwise_mergeSort (fun _ _ _ => Std.TransCmp.isLE_trans) htotal regions
  have hnodup := (List.mergeSort_perm regions fun a b => (order a b).isLE).nodup_iff.mpr h
  refine (hsorted.and hnodup).imp fun ⟨hle, hne⟩ => ?_
  exact (Ordering.isLE_iff_eq_lt_or_eq_eq.mp hle).resolve_right fun heq => hne (Std.LawfulEqCmp.eq_of_compare heq)

/-- Ascending regions are determined by which they are. -/
theorem eq_of_ascending {regions regions' : List Region} (h : regions.Pairwise fun a b => order a b = .lt)
    (h' : regions'.Pairwise fun a b => order a b = .lt) (hmem : ∀ r, r ∈ regions ↔ r ∈ regions') :
    regions = regions' := by
  have hirrefl : Std.Irrefl fun a b : Region => order a b = .lt := ⟨fun a ha => by
    rw [order_self] at ha
    cases ha⟩
  have hantisymm : Std.Antisymm fun a b : Region => order a b = .lt := ⟨fun a b hab hba =>
    absurd (Std.TransCmp.lt_trans hab hba) (hirrefl.irrefl a)⟩
  exact h.eq_of_mem_iff h' hmem

/-! ### Maximal tilings -/

/-- What the regions of some cells are: they ascend, they are apart, they cover the cells and no others, each of
their rows is a run of cells that is as long as possible, and none of them goes on in another. That the corners of
a region are in order is part of its type. -/
structure IsMaximalTiling (cells : List Position) (regions : List Region) : Prop where
  ascending : regions.Pairwise fun a b => order a b = .lt
  disjoint : regions.Pairwise fun a b => ∀ p, ¬(a.covers p = true ∧ b.covers p = true)
  covering : ∀ p, (∃ r ∈ regions, r.covers p = true) ↔ p ∈ cells
  maximal : ∀ r ∈ regions, ∀ row, r.rect.top ≤ row → row ≤ r.rect.bottom →
    IsRun (fun col => (⟨r.sheet, row, col⟩ : Position) ∈ cells) r.rect.left r.rect.right
  unstacked : ∀ r ∈ regions, ∀ s ∈ regions, r.sheet = s.sheet → r.rect.left = s.rect.left →
    r.rect.right = s.rect.right → r.rect.bottom + 1 ≠ s.rect.top

theorem covers_iff {r : Region} {p : Position} : r.covers p = true ↔
    r.sheet = p.sheet ∧ (r.rect.left ≤ p.col ∧ p.col ≤ r.rect.right) ∧ r.rect.top ≤ p.row ∧ p.row ≤ r.rect.bottom := by
  unfold covers
  rw [Bool.and_eq_true, beq_iff_eq, contains_iff]

/-- A region is a stack of runs of cells that goes as far up and down as there are such runs. -/
def IsStackOf (cells : List Position) (r : Region) : Prop :=
  IsRun (fun row => IsRun (fun col => (⟨r.sheet, row, col⟩ : Position) ∈ cells) r.rect.left r.rect.right)
    r.rect.top r.rect.bottom

/-- Two stacks that share a cell are one. -/
theorem IsStackOf.unique {cells : List Position} {r s : Region} (hr : IsStackOf cells r) (hs : IsStackOf cells s)
    {p : Position} (hcovers : r.covers p = true) (hcovers' : s.covers p = true) : r = s := by
  obtain ⟨hsheet, hcol, hrow⟩ := covers_iff.mp hcovers
  obtain ⟨hsheet', hcol', hrow'⟩ := covers_iff.mp hcovers'
  have hsame : r.sheet = s.sheet := hsheet.trans hsheet'.symm
  obtain ⟨sheet, left, top, right, bottom, _, _⟩ := r
  obtain ⟨sheet', left', top', right', bottom', _, _⟩ := s
  obtain rfl : sheet = sheet' := hsame
  obtain ⟨hleft, hright⟩ := (hr.inside p.row hrow.1 hrow.2).unique (hs.inside p.row hrow'.1 hrow'.2) hcol hcol'
  obtain rfl : left = left' := hleft
  obtain rfl : right = right' := hright
  obtain ⟨htop, hbottom⟩ := IsRun.unique hr hs hrow hrow'
  obtain rfl : top = top' := htop
  obtain rfl : bottom = bottom' := hbottom
  rfl

namespace IsMaximalTiling

variable {cells cells' : List Position} {regions regions' : List Region}

theorem eq_of_covers (h : IsMaximalTiling cells regions) {r s : Region} (hr : r ∈ regions) (hs : s ∈ regions)
    {p : Position} (hcovers : r.covers p = true) (hcovers' : s.covers p = true) : r = s := by
  by_contra hne
  rcases or_of_pairwise h.disjoint hr hs hne with hdisjoint | hdisjoint
  · exact hdisjoint p ⟨hcovers, hcovers'⟩
  · exact hdisjoint p ⟨hcovers', hcovers⟩

/-- Where a row has the run of a region, there is a region with this run. -/
theorem exists_mem_of_isRun (h : IsMaximalTiling cells regions) {r : Region} {row : Nat}
    (hrun : IsRun (fun col => (⟨r.sheet, row, col⟩ : Position) ∈ cells) r.rect.left r.rect.right) :
    ∃ s ∈ regions, s.sheet = r.sheet ∧ s.rect.left = r.rect.left ∧ s.rect.right = r.rect.right ∧
      s.rect.top ≤ row ∧ row ≤ s.rect.bottom := by
  have hwidth := r.rect.left_le_right
  obtain ⟨s, hs, hcovers⟩ := (h.covering _).mpr (hrun.inside r.rect.left (Nat.le_refl _) hwidth)
  obtain ⟨hsheet, hcol, htop, hbottom⟩ := covers_iff.mp hcovers
  have hrun' := h.maximal s hs row htop hbottom
  rw [hsheet] at hrun'
  obtain ⟨hleft, hright⟩ := hrun'.unique hrun hcol ⟨Nat.le_refl _, hwidth⟩
  exact ⟨s, hs, hsheet, hleft, hright, htop, hbottom⟩

/-- **The regions of a tiling go as far up and down as they can.** -/
theorem isStackOf (h : IsMaximalTiling cells regions) {r : Region} (hr : r ∈ regions) : IsStackOf cells r := by
  have hwidth := r.rect.left_le_right
  have hheight := r.rect.top_le_bottom
  -- the region with the run next to this one would be stacked on it, or share a cell with it
  have hshared : ∀ s ∈ regions, s.sheet = r.sheet → s.rect.left = r.rect.left → ∀ row, r.rect.top ≤ row →
      row ≤ r.rect.bottom → s.rect.top ≤ row → row ≤ s.rect.bottom → s = r := by
    intro s hs hsheet hleft row htop hbottom htop' hbottom'
    have hwidth' := s.rect.left_le_right
    refine h.eq_of_covers (p := ⟨r.sheet, row, r.rect.left⟩) hs hr ?_ ?_
    · exact covers_iff.mpr ⟨hsheet, by dsimp only; omega, htop', hbottom'⟩
    · exact covers_iff.mpr ⟨rfl, by dsimp only; omega, htop, hbottom⟩
  refine IsRun.mk (h.maximal r hr) ?_ ?_
  · intro row hnext hrun
    obtain ⟨s, hs, hsheet, hleft, hright, htop, hbottom⟩ := h.exists_mem_of_isRun hrun
    have hunstacked := h.unstacked s hs r hr hsheet hleft hright
    have heq := hshared s hs hsheet hleft r.rect.top (Nat.le_refl _) hheight (by omega) (by omega)
    rw [heq] at htop
    omega
  · intro hrun
    obtain ⟨s, hs, hsheet, hleft, hright, htop, hbottom⟩ := h.exists_mem_of_isRun hrun
    have hunstacked := h.unstacked r hr s hs hsheet.symm hleft.symm hright.symm
    have heq := hshared s hs hsheet hleft r.rect.bottom hheight (Nat.le_refl _) (by omega) (by omega)
    rw [heq] at hbottom
    omega

/-- What is in one tiling of some cells is in every tiling of them. -/
theorem mem_of_mem (h : IsMaximalTiling cells regions) (h' : IsMaximalTiling cells regions') {r : Region}
    (hr : r ∈ regions) : r ∈ regions' := by
  have hwidth := r.rect.left_le_right
  have hheight := r.rect.top_le_bottom
  have hfirst : r.covers ⟨r.sheet, r.rect.top, r.rect.left⟩ = true :=
    covers_iff.mpr ⟨rfl, ⟨Nat.le_refl _, hwidth⟩, Nat.le_refl _, hheight⟩
  obtain ⟨s, hs, hcovers⟩ := (h'.covering _).mpr ((h.covering _).mp ⟨r, hr, hfirst⟩)
  rwa [(h.isStackOf hr).unique (h'.isStackOf hs) hfirst hcovers]

/-- **Given cells have one maximal tiling.** -/
theorem unique (h : IsMaximalTiling cells regions) (h' : IsMaximalTiling cells regions') : regions = regions' :=
  eq_of_ascending h.ascending h'.ascending fun _ => ⟨h.mem_of_mem h', h'.mem_of_mem h⟩

/-- Only which cells there are matters for a tiling. -/
theorem congr (h : IsMaximalTiling cells regions) (hcells : ∀ p, p ∈ cells' ↔ p ∈ cells) :
    IsMaximalTiling cells' regions where
  ascending := h.ascending
  disjoint := h.disjoint
  covering p := (h.covering p).trans (hcells p).symm
  maximal r hr row htop hbottom := by
    simp only [hcells]
    exact h.maximal r hr row htop hbottom
  unstacked := h.unstacked

end IsMaximalTiling

/-! ### The regions of cells -/

/-- The cells of one sheet, for each of the sheets that some cells are on. -/
def sheetsOf (cells : List Position) : List (List Position) :=
  (Std.TreeSet.ofList cells).toList.splitBy fun p q => p.sheet == q.sheet

section Sheets

variable {cells ps : List Position}

theorem ascending_of_mem_sheetsOf (hps : ps ∈ sheetsOf cells) : ps.Pairwise fun p q => compare p q = .lt :=
  Std.TreeSet.ordered_toList.sublist (sublist_of_mem_splitBy hps)

theorem sheet_eq_of_mem_sheetsOf (hps : ps ∈ sheetsOf cells) {p q : Position} (hp : p ∈ ps) (hq : q ∈ ps) :
    q.sheet = p.sheet :=
  key_eq_of_mem_splitBy hps hq hp

theorem isLE_sheet_toList :
    (Std.TreeSet.ofList cells).toList.Pairwise fun p q => (compare p.sheet q.sheet).isLE = true :=
  Std.TreeSet.ordered_toList.imp isLE_sheet_of_compare

/-- The cells of a sheet are those of the given ones that are on it. -/
theorem mem_of_mem_sheetsOf (hps : ps ∈ sheetsOf cells) {p q : Position} (hp : p ∈ ps) (hsheet : q.sheet = p.sheet) :
    q ∈ ps ↔ q ∈ cells := by
  rw [← mem_ofList_iff cells, ← Std.TreeSet.mem_toList]
  exact ⟨fun hq => (sublist_of_mem_splitBy hps).subset hq,
    fun hq => mem_of_mem_splitBy isLE_sheet_toList hps hp hq hsheet⟩

/-- The regions of the cells of one sheet. -/
def ofSheet (ps : List Position) : List Region :=
  match ps with
  | [] => []
  | p :: _ => (stackRows [] (rowsOf ps)).map fun rect => ⟨p.sheet, rect⟩

theorem ofCells_eq : ofCells cells = ((sheetsOf cells).flatMap ofSheet).mergeSort fun a b => (order a b).isLE :=
  rfl

theorem mem_ofSheet {r : Region} (hr : r ∈ ofSheet ps) :
    (∃ p ∈ ps, p.sheet = r.sheet) ∧ r.rect ∈ stackRows [] (rowsOf ps) := by
  cases ps with
  | nil => exact absurd hr List.not_mem_nil
  | cons p ps =>
    obtain ⟨rect, hrect, rfl⟩ := List.mem_map.mp hr
    exact ⟨⟨p, List.mem_cons_self, rfl⟩, hrect⟩

/-- **Every region of a sheet goes as far as it can**: its rows are runs of cells, and it ends where they do. -/
theorem isStackOf_of_mem_ofSheet (hps : ps ∈ sheetsOf cells) {r : Region} (hr : r ∈ ofSheet ps) :
    IsStackOf cells r := by
  obtain ⟨⟨p, hp, hsheet⟩, hrect⟩ := mem_ofSheet hr
  have hsorted := ascending_of_mem_sheetsOf hps
  have hsame : ∀ q ∈ ps, q.sheet = r.sheet := fun q hq => (sheet_eq_of_mem_sheetsOf hps hp hq).trans hsheet
  have hlines := lines_rowsOf hsorted fun p hp q hq => (hsame p hp).trans (hsame q hq).symm
  have hstack : IsStack ([] ++ rowsOf ps) r.rect := isStack_of_mem_stackRows open_nil hlines hrect
  have hruns : (fun line => RunAt ([] ++ rowsOf ps) line (r.rect.left, r.rect.right)) = fun row =>
      IsRun (fun col => (⟨r.sheet, row, col⟩ : Position) ∈ cells) r.rect.left r.rect.right := by
    refine funext fun row => propext ((runAt_rowsOf hsorted hsame).trans ?_)
    simp only [mem_of_mem_sheetsOf hps hp (q := ⟨r.sheet, row, _⟩) hsheet.symm, r.rect.left_le_right, true_and]
  unfold IsStack at hstack
  rwa [hruns] at hstack

/-- No region is made twice: no sheet is done twice, and no rectangle of a sheet is made twice. -/
theorem nodup_flatMap_ofSheet : ((sheetsOf cells).flatMap ofSheet).Nodup := by
  refine List.nodup_flatMap.mpr ⟨fun ps hps => ?_, ?_⟩
  · have hsorted := ascending_of_mem_sheetsOf hps
    have hsheet : ∀ p ∈ ps, ∀ q ∈ ps, p.sheet = q.sheet := fun p hp q hq => sheet_eq_of_mem_sheetsOf hps hq hp
    cases ps with
    | nil => exact List.nodup_nil
    | cons p ps =>
      refine List.Nodup.map (fun a b hab => congrArg Region.rect hab) ?_
      exact nodup_stackRows open_nil (lines_rowsOf hsorted hsheet) List.nodup_nil (ascending_rowsOf hsorted hsheet)
  · refine (pairwise_splitBy isLE_sheet_toList).imp fun {ps qs} hlt r hr hr' => ?_
    obtain ⟨⟨p, hp, hsheet⟩, -⟩ := mem_ofSheet hr
    obtain ⟨⟨q, hq, hsheet'⟩, -⟩ := mem_ofSheet hr'
    have hlt := hlt p hp q hq
    rw [hsheet, hsheet', Std.compare_self] at hlt
    cases hlt

/-- **The regions of some cells are their maximal tiling.** -/
theorem isMaximalTiling_ofCells (cells : List Position) : IsMaximalTiling cells (ofCells cells) := by
  have hstack : ∀ r ∈ ofCells cells, IsStackOf cells r := by
    intro r hr
    rw [ofCells_eq, List.mem_mergeSort, List.mem_flatMap] at hr
    obtain ⟨ps, hps, hr⟩ := hr
    exact isStackOf_of_mem_ofSheet hps hr
  have hascending : (ofCells cells).Pairwise fun a b => order a b = .lt := by
    rw [ofCells_eq]
    exact ascending_mergeSort nodup_flatMap_ofSheet
  constructor
  case ascending => exact hascending
  case disjoint =>
    refine hascending.imp_of_mem fun {a b} ha hb hlt p ⟨hcovers, hcovers'⟩ => ?_
    rw [(hstack a ha).unique (hstack b hb) hcovers hcovers', order_self] at hlt
    cases hlt
  case covering => exact fun p => covered_ofCells
  case maximal => exact fun r hr => (hstack r hr).inside
  case unstacked =>
    intro r hr s hs hsheet hleft hright hnext
    have hrun := (hstack s hs).inside s.rect.top (Nat.le_refl _) s.rect.top_le_bottom
    rw [← hsheet, ← hleft, ← hright, ← hnext] at hrun
    exact (hstack r hr).behind hrun

end Sheets

end Region

end Spreadsheet
