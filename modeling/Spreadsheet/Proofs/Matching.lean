import Spreadsheet.Proofs.Histories

/-!
# Matching: the graph and the formulas of a reachable engine

What an edit believes to be affected by it is linked again, and only that. In every reachable engine the
graph nevertheless has of each formula what the workbook, the names and the grid say at that moment:

* `Engine.MatchesFormulas` — the statement, for formulas that can be resolved, formulas that cannot, and
  everything else;
* `Reachable.matchesFormulas` — every reachable engine satisfies it.

Both directions of the graph are covered: no edge begins or ends on a sheet that is gone.
-/

namespace Spreadsheet

open DependencyGraph

namespace Engine

variable {e : Engine} {p : Position} {x : Expr}

/-- Every reference of a formula on a sheet means an area. -/
def Resolves (e : Engine) (sheet : SheetId) (x : Expr) : Prop :=
  ∀ entry ∈ x.references, ∃ a, e.scope.resolve entry.2 sheet = .ok a

/-- The graph matches the formulas: it has of each formula what its references mean, marks those that
mean nothing, and has nothing else. -/
structure MatchesFormulas (e : Engine) : Prop where
  /-- A formula whose references can all be resolved reads what they mean. -/
  resolved : ∀ p c f x, e.workbook.cell? p = some c → c.content = .formula f → f.parsed = some (.ok x) →
    e.Resolves p.sheet x →
      (∀ a, a ∈ e.graph.precedentsOf p ↔
        ∃ entry ∈ x.references, e.scope.resolve entry.2 p.sheet = .ok a) ∧
      p ∉ e.graph.unresolved ∧ f.linkError = none
  /-- A formula with a reference that means nothing reads nothing, and is known for it. -/
  unresolved : ∀ p c f x, e.workbook.cell? p = some c → c.content = .formula f → f.parsed = some (.ok x) →
    ¬e.Resolves p.sheet x →
      e.graph.precedentsOf p = [] ∧ p ∈ e.graph.unresolved ∧
      ∃ problem, f.linkError = some problem ∧ problem.kind = .invalidReference
  /-- Nothing else reads anything: constants, formulas that were not read or have a syntax error, and
  positions at which nothing is stored. -/
  plain : ∀ p, (∀ c f x, e.workbook.cell? p = some c → c.content = .formula f → f.parsed ≠ some (.ok x)) →
    e.graph.precedentsOf p = [] ∧ p ∉ e.graph.unresolved
  /-- An edge begins and ends on sheets that are there. -/
  live : ∀ p, ∀ a ∈ e.graph.precedentsOf p,
    e.workbook.contains p.sheet = true ∧ e.workbook.contains a.sheet = true
  /-- So does an edge that is found from its other end. -/
  live_readers : ∀ p, ∀ reader ∈ e.graph.readersOf p,
    e.workbook.contains reader.sheet = true ∧ e.workbook.contains p.sheet = true
  /-- And so does a range, whichever of its cells are stored. -/
  live_ranges : ∀ sheet, ∀ edge ∈ e.graph.rangesOn sheet,
    e.workbook.contains edge.2.sheet = true ∧ e.workbook.contains sheet = true

theorem not_mem_unresolved (hp : e.LinkedAt p) (h : (e.linkAt p).unresolved = false) :
    p ∉ e.graph.unresolved := by
  intro hmem
  have hmem := (mem_unresolved_iff_link e.graph p).mp (Std.TreeSet.mem_toList.mpr hmem)
  rw [hp.link_eq, h] at hmem
  cases hmem

theorem resolved_of_not_mem (hp : e.LinkedAt p) (h : p ∉ e.graph.unresolved) :
    (e.linkAt p).unresolved = false := by
  rw [← hp.link_eq, ← Bool.not_eq_true]
  exact fun hunresolved =>
    h (Std.TreeSet.mem_toList.mp ((mem_unresolved_iff_link e.graph p).mpr hunresolved))

theorem precedentsOf_eq (hp : e.LinkedAt p) : e.graph.precedentsOf p = (e.linkAt p).areas :=
  congrArg Link.areas hp.link_eq

/-- A linked formula whose references can all be resolved. -/
theorem linked_of_resolves (hp : e.LinkedAt p) (hx : e.workbook.tree? p = some x)
    (h : e.Resolves p.sheet x) :
    (∀ a, a ∈ e.graph.precedentsOf p ↔
      ∃ entry ∈ x.references, e.scope.resolve entry.2 p.sheet = .ok a) ∧
    p ∉ e.graph.unresolved ∧ e.workbook.linkKind? p = none := by
  obtain ⟨areas, hareas⟩ := (resolveAll_isOk_iff e.scope p.sheet x.references).mpr h
  have hlink : e.linkAt p = ⟨areas, lookedUp x, false⟩ := by
    rw [linkAt_of_tree hx]
    unfold linkOf
    rw [hareas]
    rfl
  refine ⟨fun a => ?_, not_mem_unresolved hp (by rw [hlink]), ?_⟩
  · rw [precedentsOf_eq hp, hlink]
    exact (resolveAll_eq_ok hareas).2 a
  · rw [hp.kind_eq, hlink]
    rfl

/-- A linked formula with a reference that means nothing. -/
theorem linked_of_not_resolves (hp : e.LinkedAt p) (hx : e.workbook.tree? p = some x)
    (h : ¬e.Resolves p.sheet x) :
    e.graph.precedentsOf p = [] ∧ p ∈ e.graph.unresolved ∧
      e.workbook.linkKind? p = some .invalidReference := by
  cases hareas : resolveAll e.scope p.sheet x.references with
  | ok areas => exact absurd ((resolveAll_isOk_iff e.scope p.sheet x.references).mp ⟨areas, hareas⟩) h
  | error problem =>
    have hlink : e.linkAt p = ⟨[], lookedUp x, true⟩ := by
      rw [linkAt_of_tree hx]
      unfold linkOf
      rw [hareas]
      rfl
    refine ⟨?_, ?_, ?_⟩
    · rw [precedentsOf_eq hp, hlink]
    · rw [← Std.TreeSet.mem_toList, mem_unresolved_iff_link, hp.link_eq, hlink]
    · rw [hp.kind_eq, hlink]
      rfl

/-- An edge of a linked formula begins and ends on sheets that are there. -/
theorem live_of_linked (hp : e.LinkedAt p) {a : Area} (ha : a ∈ e.graph.precedentsOf p) :
    e.workbook.contains p.sheet = true ∧ e.workbook.contains a.sheet = true := by
  rw [precedentsOf_eq hp] at ha
  cases hx : e.workbook.tree? p with
  | none =>
    unfold linkAt at ha
    rw [hx] at ha
    exact absurd ha List.not_mem_nil
  | some x =>
    have hlive : e.workbook.contains p.sheet = true := by
      apply Workbook.contains_of_cell?
      obtain ⟨c, hc, -⟩ := Option.bind_eq_some_iff.mp hx
      rw [hc]
      rfl
    obtain ⟨areas, hareas⟩ : ∃ areas, resolveAll e.scope p.sheet x.references = .ok areas := by
      cases hareas : resolveAll e.scope p.sheet x.references with
      | ok areas => exact ⟨areas, rfl⟩
      | error problem =>
        rw [linkAt_of_tree hx] at ha
        unfold linkOf at ha
        rw [hareas] at ha
        exact absurd ha List.not_mem_nil
    rw [linkAt_of_tree hx] at ha
    unfold linkOf at ha
    rw [hareas] at ha
    obtain ⟨entry, -, hmeans⟩ := ((resolveAll_eq_ok hareas).2 a).mp ha
    exact ⟨hlive, contains_of_resolve hlive hmeans⟩

/-- **In every reachable engine the graph matches the formulas.** -/
theorem Reachable.matchesFormulas {library : Library} (h : Reachable library e) : e.MatchesFormulas := by
  have hlinked := h.consistent.linked
  have hsymmetric := h.consistent.symmetric
  constructor
  case resolved =>
    intro p c f x hc hf hx hresolves
    have htree := Workbook.tree?_of_cell hc hf hx
    obtain ⟨hreads, hknown, hnone⟩ := linked_of_resolves (hlinked p) htree hresolves
    rw [Workbook.linkKind?_of_cell hc hf] at hnone
    exact ⟨hreads, hknown, Option.map_eq_none_iff.mp hnone⟩
  case unresolved =>
    intro p c f x hc hf hx hresolves
    have htree := Workbook.tree?_of_cell hc hf hx
    obtain ⟨hreads, hknown, hsome⟩ := linked_of_not_resolves (hlinked p) htree hresolves
    rw [Workbook.linkKind?_of_cell hc hf] at hsome
    exact ⟨hreads, hknown, Option.map_eq_some_iff.mp hsome⟩
  case plain =>
    intro p hp
    have hnone : e.workbook.tree? p = none := by
      rw [Option.eq_none_iff_forall_ne_some]
      intro x hx
      obtain ⟨c, hc, hx⟩ := Option.bind_eq_some_iff.mp hx
      obtain ⟨f, hf, hparsed⟩ := Cell.tree?_eq_some.mp hx
      exact hp c f x hc hf hparsed
    have hlink : e.linkAt p = {} := by
      unfold linkAt
      rw [hnone]
    exact ⟨by rw [precedentsOf_eq (hlinked p), hlink], not_mem_unresolved (hlinked p) (by rw [hlink])⟩
  case live => exact fun p a ha => live_of_linked (hlinked p) ha
  case live_readers =>
    intro p reader hreader
    obtain ⟨a, ha, hcovers⟩ := (mem_readersOf hsymmetric).mp hreader
    obtain ⟨hreads, hread⟩ := live_of_linked (hlinked reader) ha
    exact ⟨hreads, ((Area.covers_iff a p).mp hcovers).1 ▸ hread⟩
  case live_ranges =>
    intro sheet edge hedge
    exact live_of_linked (hlinked edge.2) ((hsymmetric.range sheet edge.1 edge.2).mp hedge)

/-- Calls that define a name, remove it, and add a sheet after the formulas that need it. -/
def lateSheet : List Call :=
  [.addSheet "S", .setFormula firstSheet (.plain 1 1) "=T!B2+SUM(rates)",
    .defineName "Rates" firstSheet ⟨2, 1, 3, 4, by decide, by decide⟩, .addSheet "T",
    .setFormula firstSheet (.plain 2 9) "=rates&U!A1"]

/-- The formula that was written before the sheet and the name came now reads both; the other one waits
for a sheet. -/
theorem matchesFormulas_lateSheet :
    Reachable .standard ((start {} .standard).run lateSheet) ∧
      ((start {} .standard).run lateSheet).MatchesFormulas ∧
      ((start {} .standard).run lateSheet).graph.precedentsOf ⟨firstSheet, 1, 1⟩ =
        [.point ⟨⟨1, 0⟩, 2, 2⟩, .range firstSheet ⟨2, 1, 3, 4, by decide, by decide⟩] ∧
      ((start {} .standard).run lateSheet).graph.unresolved.toList = [⟨firstSheet, 9, 2⟩] := by
  have hreachable : Reachable .standard ((start {} .standard).run lateSheet) :=
    (Reachable.start {} ⟨by decide, by decide⟩).run lateSheet
  exact ⟨hreachable, Reachable.matchesFormulas hreachable, by decide +kernel, by decide +kernel⟩

end Engine

end Spreadsheet
