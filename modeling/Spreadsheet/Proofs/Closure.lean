import Mathlib.Logic.Relation
import Spreadsheet.Dependency.Reach
import Spreadsheet.Proofs.Edges
import Spreadsheet.Proofs.Storage

/-!
# Closure: the cells that depend on a cell

The engine finds what depends on a cell by a walk that forgets every position once it was visited. Here
the walk is compared with the reflexive and transitive closure of the edges it follows:

* `mem_reach` — the walk visits exactly what can be reached from where it starts, on paths through the
  positions it was given;
* `DependencyGraph.mem_closure` — the closure of some cells holds exactly the formulas that read one of
  them, directly or through others, and the cells themselves;
* `DependencyGraph.mem_cycleMembers` — the cells that are computed along with a cell are those that lie
  on a cycle with it.
-/

namespace Spreadsheet

open Relation

/-- One step of a walk that keeps to some positions. -/
def StepWithin (next : Position → List Position) (allowed : PositionSet) (p q : Position) : Prop :=
  q ∈ next p ∧ q ∈ allowed

/-- A walk either keeps away from a position, or ends after its last visit to it. -/
theorem walk_avoids {next : Position → List Position} {allowed : PositionSet} (p : Position)
    {a q : Position} (ha : a ∈ allowed) (h : ReflTransGen (StepWithin next allowed) a q) :
    (a ∈ allowed.erase p ∧ ReflTransGen (StepWithin next (allowed.erase p)) a q) ∨ q = p ∨
      ∃ b ∈ next p, b ∈ allowed.erase p ∧ ReflTransGen (StepWithin next (allowed.erase p)) b q := by
  induction h with
  | refl =>
    by_cases hap : a = p
    · exact Or.inr (Or.inl hap)
    · exact Or.inl ⟨(mem_erase_iff allowed p a).mpr ⟨hap, ha⟩, ReflTransGen.refl⟩
  | @tail b c _ hstep ih =>
    by_cases hcp : c = p
    · exact Or.inr (Or.inl hcp)
    have hc : c ∈ allowed.erase p := (mem_erase_iff allowed p c).mpr ⟨hcp, hstep.2⟩
    rcases ih with ⟨haway, hwalk⟩ | rfl | ⟨d, hd, haway, hwalk⟩
    · exact Or.inl ⟨haway, hwalk.tail ⟨hstep.1, hc⟩⟩
    · exact Or.inr (Or.inr ⟨c, hstep.1, hc, ReflTransGen.refl⟩)
    · exact Or.inr (Or.inr ⟨d, hd, haway, hwalk.tail ⟨hstep.1, hc⟩⟩)

theorem stepWithin_mono {next : Position → List Position} {allowed : PositionSet} {p : Position}
    {a b : Position} (h : StepWithin next (allowed.erase p) a b) : StepWithin next allowed a b :=
  ⟨h.1, ((mem_erase_iff allowed p b).mp h.2).2⟩

/-- **The walk visits exactly what can be reached.** The induction is on the walk itself: the positions
it may still visit shrink with every visit, and `walk_avoids` says that nothing is missed by that. -/
theorem mem_reach (next : Position → List Position) (unvisited : PositionSet) (todo : List Position)
    (visited : PositionSet) (q : Position) :
    q ∈ reach next unvisited todo visited ↔
      q ∈ visited ∨ ∃ p ∈ todo, p ∈ unvisited ∧ ReflTransGen (StepWithin next unvisited) p q := by
  induction unvisited, todo, visited using reach.induct next with
  | case1 unvisited visited =>
    rw [reach]
    simp
  | case2 unvisited visited p todo hp ih =>
    rw [reach, dif_pos hp, ih, mem_insert_iff]
    have hp : p ∈ unvisited := hp
    constructor
    · rintro ((rfl | hq) | ⟨b, hb, hallowed, hwalk⟩)
      · exact Or.inr ⟨q, List.mem_cons_self, hp, ReflTransGen.refl⟩
      · exact Or.inl hq
      · right
        have hb' : b ∈ unvisited := ((mem_erase_iff unvisited p b).mp hallowed).2
        have hwalk' := ReflTransGen.mono (fun _ _ => stepWithin_mono) _ _ hwalk
        rcases List.mem_append.mp hb with hnext | htodo
        · exact ⟨p, List.mem_cons_self, hp, ReflTransGen.head ⟨hnext, hb'⟩ hwalk'⟩
        · exact ⟨b, List.mem_cons_of_mem _ htodo, hb', hwalk'⟩
    · rintro (hq | ⟨b, hb, hallowed, hwalk⟩)
      · exact Or.inl (Or.inr hq)
      · rcases walk_avoids p hallowed hwalk with ⟨haway, hwalk'⟩ | rfl | ⟨c, hc, haway, hwalk'⟩
        · have hne : b ≠ p := ((mem_erase_iff unvisited p b).mp haway).1
          have hb' : b ∈ todo := (List.mem_cons.mp hb).resolve_left hne
          exact Or.inr ⟨b, List.mem_append_right _ hb', haway, hwalk'⟩
        · exact Or.inl (Or.inl rfl)
        · exact Or.inr ⟨c, List.mem_append_left _ hc, haway, hwalk'⟩
  | case3 unvisited visited p todo hp ih =>
    rw [reach, dif_neg hp, ih]
    constructor
    · rintro (hq | ⟨b, hb, hrest⟩)
      · exact Or.inl hq
      · exact Or.inr ⟨b, List.mem_cons_of_mem _ hb, hrest⟩
    · rintro (hq | ⟨b, hb, hallowed, hwalk⟩)
      · exact Or.inl hq
      · have hne : b ≠ p := fun h => hp (h ▸ hallowed)
        exact Or.inr ⟨b, (List.mem_cons.mp hb).resolve_left hne, hallowed, hwalk⟩

namespace DependencyGraph

variable {g : DependencyGraph}

/-- The cell lies on a cycle: its formula reads it, directly or through others. -/
def OnCycle (g : DependencyGraph) (p : Position) : Prop := TransGen g.Reads p p

/-- Two cells read each other, directly or through others. -/
def Joined (g : DependencyGraph) (p q : Position) : Prop := TransGen g.Reads p q ∧ TransGen g.Reads q p

/-- A cell lies on a cycle that shares no cell with another one: whatever lies on a cycle with it reads
only one such cell. -/
structure OnRing (g : DependencyGraph) (p : Position) : Prop where
  onCycle : g.OnCycle p
  single : ∀ r q q', g.Joined p r → g.Reads r q → g.Joined p q → g.Reads r q' → g.Joined p q' → q = q'

/-- **What depends on a cell.** The closure holds the given cells and every formula that reads one of
them, directly or through others. -/
theorem mem_closure (hg : g.IsSymmetric) {seeds : List Position} {q : Position} :
    q ∈ g.closure seeds ↔ ∃ p ∈ seeds, ReflTransGen g.Reads q p := by
  unfold closure
  rw [mem_reach]
  constructor
  · rintro (h | ⟨p, hp, -, hwalk⟩)
    · exact absurd h Std.TreeSet.not_mem_emptyc
    · refine ⟨p, hp, reflTransGen_swap.mp (ReflTransGen.mono (fun a b hstep => ?_) _ _ hwalk)⟩
      exact (mem_readersOf hg).mp (Std.TreeSet.mem_toList.mp hstep.1)
  · rintro ⟨p, hp, hreads⟩
    right
    refine ⟨p, hp, (mem_foldl_insert _ _ _).mpr (Or.inr hp), ?_⟩
    refine ReflTransGen.mono (fun a b hstep => ?_) _ _ (reflTransGen_swap.mpr hreads)
    have hstep : g.Reads b a := hstep
    exact ⟨Std.TreeSet.mem_toList.mpr ((mem_readersOf hg).mpr hstep),
      (mem_foldl_insert _ _ _).mpr (Or.inl (hstep.mem_allReaders hg))⟩

/-- The closure of some cells is closed under readers. -/
theorem closure_closed (hg : g.IsSymmetric) {seeds : List Position} {p reader : Position}
    (hp : p ∈ g.closure seeds) (hr : g.Reads reader p) : reader ∈ g.closure seeds := by
  obtain ⟨seed, hseed, hwalk⟩ := (mem_closure hg).mp hp
  exact (mem_closure hg).mpr ⟨seed, hseed, hwalk.head hr⟩

theorem mem_closure_of_mem (hg : g.IsSymmetric) {seeds : List Position} {p : Position}
    (h : p ∈ seeds) : p ∈ g.closure seeds :=
  (mem_closure hg).mpr ⟨p, h, ReflTransGen.refl⟩

/-! ### Cells on a cycle with a cell -/

theorem mem_cellsReadBy (g : DependencyGraph) (w : Workbook) {reader q : Position} :
    q ∈ g.cellsReadBy w reader → g.Reads reader q := by
  intro h
  unfold cellsReadBy at h
  obtain ⟨a, ha, hq⟩ := List.mem_flatMap.mp h
  refine ⟨a, ha, ?_⟩
  cases a with
  | point p =>
    have hq : q = p := List.mem_singleton.mp hq
    simp [Area.covers, hq]
  | range sheet rect =>
    dsimp only at hq
    split at hq
    · obtain ⟨spot, hspot, rfl⟩ := List.mem_map.mp hq
      have hin : rect.contains spot.col spot.row = true := (List.mem_filter.mp hspot).2
      simp [Area.covers, Spot.on, hin]
    · exact absurd hq List.not_mem_nil

/-- A stored cell that a formula reads is among the cells read by it. -/
theorem mem_cellsReadBy_of_stored {w : Workbook} {reader q : Position} (h : g.Reads reader q)
    (hq : (w.cell? q).isSome = true) : q ∈ g.cellsReadBy w reader := by
  obtain ⟨a, ha, hc⟩ := h
  unfold cellsReadBy
  refine List.mem_flatMap.mpr ⟨a, ha, ?_⟩
  cases a with
  | point p =>
    have hp : p = q := by simpa [Area.covers] using hc
    exact List.mem_singleton.mpr hp.symm
  | range sheet rect =>
    obtain ⟨rfl, hin⟩ : sheet = q.sheet ∧ rect.contains q.col q.row = true := by
      simpa [Area.covers] using hc
    obtain ⟨c, hcell⟩ := Option.isSome_iff_exists.mp hq
    obtain ⟨s, hs, hget⟩ := Workbook.cell?_eq_some.mp hcell
    dsimp only
    rw [hs]
    refine List.mem_map.mpr ⟨q.spot, List.mem_filter.mpr ⟨?_, hin⟩, rfl⟩
    apply Std.TreeMap.mem_keys.mpr
    apply Std.TreeMap.isSome_getElem?_iff_mem.mp
    show (s.get? q.spot).isSome = true
    rw [hget]
    rfl

/-- The cells that a cell reads through others are among its sources, as long as they are stored. -/
theorem mem_sources {w : Workbook} (hw : w.WellFormed)
    (hstored : ∀ r, g.precedentsOf r ≠ [] → (w.cell? r).isSome = true) {p q : Position}
    (h : TransGen g.Reads p q) (hq : (w.cell? q).isSome = true) : q ∈ g.sources w p := by
  unfold sources
  dsimp only
  rw [mem_reach]
  right
  have hknown : ∀ r, (w.cell? r).isSome = true →
      r ∈ w.positions.foldl (fun s q => s.insert q) (Std.TreeSet.ofList g.pointsRead) := by
    intro r hr
    exact (mem_foldl_insert _ _ _).mpr (Or.inr ((Workbook.mem_positions hw).mpr hr))
  -- Every cell on the way reads the next one, so it has a formula and is stored.
  induction h with
  | single hr => exact ⟨_, mem_cellsReadBy_of_stored hr hq, hknown _ hq, ReflTransGen.refl⟩
  | @tail b c _ hr ih =>
    have hb : (w.cell? b).isSome = true := by
      obtain ⟨a, ha, -⟩ := hr
      exact hstored b (List.ne_nil_of_mem ha)
    obtain ⟨first, hfirst, hallowed, hwalk⟩ := ih hb
    exact ⟨first, hfirst, hallowed, hwalk.tail ⟨mem_cellsReadBy_of_stored hr hq, hknown _ hq⟩⟩

theorem reads_of_mem_sources {w : Workbook} {p q : Position} (h : q ∈ g.sources w p) :
    TransGen g.Reads p q := by
  unfold sources at h
  dsimp only at h
  rw [mem_reach] at h
  rcases h with h | ⟨first, hfirst, -, hwalk⟩
  · exact absurd h Std.TreeSet.not_mem_emptyc
  · have hrest : ReflTransGen g.Reads first q :=
      ReflTransGen.mono (fun a b hstep => mem_cellsReadBy g w hstep.1) _ _ hwalk
    exact TransGen.head' (mem_cellsReadBy g w hfirst) hrest

theorem one_lt_size {s : PositionSet} {p q : Position} (hp : p ∈ s) (hq : q ∈ s) (hne : p ≠ q) :
    ¬s.size ≤ 1 := by
  intro h
  rw [← Std.TreeSet.length_toList] at h
  rw [← Std.TreeSet.mem_toList] at hp hq
  match s.toList, h, hp, hq with
  | [], _, hp, _ => exact absurd hp List.not_mem_nil
  | [r], _, hp, hq =>
    exact hne ((List.mem_singleton.mp hp).trans (List.mem_singleton.mp hq).symm)

/-- **The cells on a cycle with a cell.** Another cell is among them exactly if each of the two reads
the other, directly or through others. -/
theorem mem_cycleMembers (hg : g.IsSymmetric) {w : Workbook} (hw : w.WellFormed)
    (hstored : ∀ r, g.precedentsOf r ≠ [] → (w.cell? r).isSome = true) {p q : Position} (hne : q ≠ p) :
    q ∈ g.cycleMembers w p ↔ TransGen g.Reads p q ∧ TransGen g.Reads q p := by
  unfold cycleMembers
  dsimp only
  constructor
  · intro h
    split at h
    · exact absurd h Std.TreeSet.not_mem_emptyc
    · obtain ⟨hsource, hdown⟩ := (mem_filter_iff _ _ _).mp h
      obtain ⟨p', hp', hwalk⟩ := (mem_closure hg).mp hdown
      rw [List.mem_singleton.mp hp'] at hwalk
      exact ⟨reads_of_mem_sources hsource, (reflTransGen_iff_eq_or_transGen.mp hwalk).resolve_left
        (Ne.symm hne)⟩
  · rintro ⟨hpq, hqp⟩
    have hp : p ∈ g.closure [p] := mem_closure_of_mem hg (List.mem_singleton.mpr rfl)
    have hq : q ∈ g.closure [p] :=
      (mem_closure hg).mpr ⟨p, List.mem_singleton.mpr rfl, hqp.to_reflTransGen⟩
    rw [if_neg (one_lt_size hp hq (Ne.symm hne)), mem_filter_iff]
    obtain ⟨b, ⟨a, ha, -⟩, -⟩ := TransGen.head'_iff.mp hqp
    exact ⟨mem_sources hw hstored hpq (hstored q (List.ne_nil_of_mem ha)), hq⟩

end DependencyGraph

end Spreadsheet
