import Mathlib.Data.List.Chain
import Spreadsheet.Proofs.Computing

/-!
# Pass states: what holds between any two steps of a pass

`Pass.Valid` is the invariant of a pass. It is told from two things that stay the same: the workbook
`w₀` with which the pass started, and the set `D` of the cells that were dirty then. In every state

* the dirty cells are those of `D` that have not been computed;
* each cell on the stack reads the one above it;
* a cell that has been computed either became a circular error on a cycle, or holds what is computed for it
  in the present workbook. In the second case nothing that it reads is dirty any more, so it will not change;
* the computed cells that did not become circular errors form no cycle.

This module has the invariant and what follows from it in a single state. That the steps of a pass keep
it is shown in the modules after it.
-/

namespace Spreadsheet

open DependencyGraph Relation

/-- A walk down a chain: from every cell on the stack, the top one is read, directly or through others. -/
theorem reads_top_of_chain {R : Position → Position → Prop} {top : Position} {cells : List Position}
    (h : (top :: cells).IsChain fun upper lower => R lower upper) {p : Position} (hp : p ∈ top :: cells) :
    ReflTransGen R p top := by
  induction cells generalizing top with
  | nil =>
    rw [List.mem_singleton.mp hp]
  | cons next cells ih =>
    obtain ⟨hstep, hrest⟩ := List.isChain_cons_cons.mp h
    rcases List.mem_cons.mp hp with rfl | hp
    · exact ReflTransGen.refl
    · exact (ih hrest hp).tail hstep

/-- A relation without cycles stays so when edges are added that start where no edge ends. -/
theorem acyclic_of_source {R S : Position → Position → Prop} {y : Position}
    (h : ∀ p, ¬TransGen R p p) (hfrom : ∀ p q, S p q → R p q ∨ p = y) (hinto : ∀ p, ¬S p y) (p : Position) :
    ¬TransGen S p p := by
  intro hcycle
  have hstep : ∀ p q, p ≠ y → S p q → R p q := fun p q hp hS => (hfrom p q hS).resolve_right hp
  obtain ⟨r, -, hlast⟩ := TransGen.tail'_iff.mp hcycle
  have hp : p ≠ y := fun heq => hinto r (heq ▸ hlast)
  have hwalk : ∀ q, TransGen S p q → TransGen R p q := by
    intro q hq
    induction hq with
    | single hS => exact TransGen.single (hstep p _ hp hS)
    | @tail b c hway hS ih =>
      obtain ⟨s, -, hbefore⟩ := TransGen.tail'_iff.mp hway
      have hb : b ≠ y := fun heq => hinto s (heq ▸ hbefore)
      exact ih.tail (hstep b c hb hS)
  exact h p (hwalk p hcycle)

namespace Pass

/-- The cells on the stack, the top one first. -/
def stacked (s : Pass) : List Position := s.stack.map Frame.cell

/-- What a pass can rely on: dirty cells are stored, only formulas without static error read anything, and
they read all that their references mean. -/
structure Ground (env : Surroundings) (w₀ : Workbook) (D : PositionSet) : Prop where
  wellFormed : w₀.WellFormed
  stored : ∀ p ∈ D, (w₀.cell? p).isSome = true
  reading : ∀ p q, env.graph.Reads p q → w₀.staticKind? p = none ∧ (w₀.tree? p).isSome = true
  resolved : ∀ p x, w₀.staticKind? p = none → w₀.tree? p = some x → ∀ entry ∈ x.references,
    ∃ a, (w₀.scope env.names env.settings).resolve entry.2 p.sheet = .ok a ∧
      ∀ q, a.covers q = true → env.graph.Reads p q

/-- The value at a position is its static error, or what its formula evaluates to. -/
structure Evaluated (env : Surroundings) (w : Workbook) (p : Position) : Prop where
  static : ∀ k, w.staticKind? p = some k → (w.value p).IsErrorOf k
  evaluated : ∀ x, w.staticKind? p = none → w.tree? p = some x →
    (w.value p).Agrees (evaluate (contextOf env w) p.sheet x)

/-- **The invariant of a pass.** -/
structure Valid (env : Surroundings) (w₀ : Workbook) (D : PositionSet) (s : Pass) : Prop where
  wellFormed : s.workbook.WellFormed
  frame : s.workbook.SameFrame w₀
  dirty_iff : ∀ q, q ∈ s.dirty ↔ q ∈ D ∧ q ∉ s.computed
  computed_mem : ∀ q ∈ s.computed, q ∈ D
  circular_mem : ∀ q ∈ s.circular, q ∈ s.computed
  stacked_dirty : ∀ q ∈ s.stacked, q ∈ s.dirty
  nodup : s.stacked.Nodup
  chain : s.stacked.IsChain fun upper lower => env.graph.Reads lower upper
  awaited : ∀ f ∈ s.stack, ∀ q ∈ f.awaited, env.graph.Reads f.cell q
  onCycle : ∀ f ∈ s.stack, f.cyclic = true → env.graph.OnCycle f.cell
  idle : ∀ q, q ∉ s.computed → q ∉ s.stacked → s.workbook.cell? q = w₀.cell? q
  begun : ∀ q ∈ s.stacked, s.workbook.cell? q = (w₀.cell? q).map Cell.begin
  finished : ∀ q ∈ s.computed, ∃ v, s.workbook.cell? q = (w₀.cell? q).map (fun c => c.finish v) ∧
    ∀ c u, w₀.cell? q = some c → c.content = .constant u → v = u
  kept : ∀ q ∈ s.computed, ∀ f, w₀.content? q = some (.formula f) → f.staticError? = none →
    f.tree? = none → s.workbook.value q = w₀.value q
  recorded : ∀ q ∈ s.changed, q ∈ s.computed ∧ (w₀.value q).same (s.workbook.value q) = false
  marked : ∀ q ∈ s.circular, env.graph.OnCycle q ∧ s.workbook.value q = .error Cause.cycle.toError
  computed_eq : ∀ q ∈ s.computed, q ∉ s.circular → s.workbook.value q = computedValue env s.workbook q
  behind : ∀ q ∈ s.computed, ∀ z, env.graph.Reads q z → z ∈ s.dirty → z ∈ s.stacked ∧ q ∈ s.circular
  acyclic : ∀ p, ¬TransGen (fun r q => env.graph.Reads r q ∧ r ∈ s.computed ∧ r ∉ s.circular) p p

/-- What the cells on a stack still wait for. A dirty cell that one of them reads is awaited, stands above
it, or stands at it or below and has marked it. -/
def Awaiting (env : Surroundings) (dirty : PositionSet) : (above : List Position) → List Frame → Prop
  | _, [] => True
  | above, f :: below =>
    (∀ q, env.graph.Reads f.cell q → q ∈ dirty → q ∈ f.awaited ∨ q ∈ above ∨
      (f.cyclic = true ∧ q ∈ (f :: below).map Frame.cell)) ∧
      Awaiting env dirty (f.cell :: above) below

/-- A pass that has cells on its stack knows which are waiting. -/
structure Running (env : Surroundings) (w₀ : Workbook) (D : PositionSet) (s : Pass) : Prop
    extends Valid env w₀ D s where
  waiting_iff : ∀ q, q ∈ s.waiting ↔ q ∈ s.dirty ∧ q ∉ s.stacked
  awaiting : Awaiting env s.dirty [] s.stack

/-! ### What is the same in every state -/

section Cells

variable {w w' : Workbook} {p : Position}

theorem value_of_begin (h : w'.cell? p = (w.cell? p).map Cell.begin) : w'.value p = w.value p := by
  rw [Workbook.value_eq, Workbook.value_eq, h]
  cases w.cell? p <;> rfl

theorem content?_of_begin (h : w'.cell? p = (w.cell? p).map Cell.begin) : w'.content? p = w.content? p := by
  unfold Workbook.content?
  rw [h]
  cases w.cell? p <;> rfl

theorem content?_of_finish {v : Value} (h : w'.cell? p = (w.cell? p).map fun c => c.finish v) :
    w'.content? p = w.content? p := by
  unfold Workbook.content?
  rw [h]
  cases w.cell? p <;> rfl

end Cells

section Valid

variable {env : Surroundings} {w₀ : Workbook} {D : PositionSet} {s : Pass}

/-- No step changes what a cell holds. -/
theorem Valid.content?_eq (h : Valid env w₀ D s) (q : Position) : s.workbook.content? q = w₀.content? q := by
  by_cases hc : q ∈ s.computed
  · obtain ⟨v, hv, -⟩ := h.finished q hc
    exact content?_of_finish hv
  by_cases hs : q ∈ s.stacked
  · exact content?_of_begin (h.begun q hs)
  · exact Workbook.content?_eq_of_cell (h.idle q hc hs)

theorem Valid.formula_eq (h : Valid env w₀ D s) (q : Position) :
    s.workbook.tree? q = w₀.tree? q ∧ s.workbook.staticKind? q = w₀.staticKind? q :=
  Workbook.formula_congr (h.content?_eq q)

/-- A value changes when the cell is computed, and not before. -/
theorem Valid.value_eq (h : Valid env w₀ D s) {q : Position} (hq : q ∉ s.computed) :
    s.workbook.value q = w₀.value q := by
  by_cases hs : q ∈ s.stacked
  · exact value_of_begin (h.begun q hs)
  · rw [Workbook.value_eq, h.idle q hq hs, ← Workbook.value_eq]

theorem Valid.isSome_cell? (h : Valid env w₀ D s) (q : Position) :
    (s.workbook.cell? q).isSome = (w₀.cell? q).isSome := by
  by_cases hc : q ∈ s.computed
  · obtain ⟨v, hv, -⟩ := h.finished q hc
    rw [hv, Option.isSome_map]
  by_cases hs : q ∈ s.stacked
  · rw [h.begun q hs, Option.isSome_map]
  · rw [h.idle q hc hs]

/-- A formula evaluates to the same in two workbooks of a pass if they match on the cells it reads. -/
theorem evaluate_congr {E : ErrorValue.Likeness} {w w' : Workbook} (hframe : w'.SameFrame w) {p : Position}
    {x : Expr}
    (hresolved : ∀ entry ∈ x.references, ∃ a,
      (w.scope env.names env.settings).resolve entry.2 p.sheet = .ok a ∧
        ∀ q, a.covers q = true → env.graph.Reads p q)
    (hvalue : ∀ q, env.graph.Reads p q → (w.value q).Matches E (w'.value q)) :
    (evaluate (contextOf env w) p.sheet x).Matches E (evaluate (contextOf env w') p.sheet x) := by
  apply evaluate_matches
  refine ⟨rfl, rfl, fun entry hentry => ?_⟩
  obtain ⟨a, ha, hreads⟩ := hresolved entry hentry
  refine ⟨a, ha, ?_, fun q hq => ⟨?_, hvalue q (hreads q hq), fun e f hef => ?_⟩⟩
  · show (w'.scope env.names env.settings).resolve entry.2 p.sheet = .ok a
    rw [hframe.scope_eq]
    exact ha
  · show w.isObscured q = w'.isObscured q
    rw [hframe.isObscured_eq]
  · show E.r (e.propagated ((w.sheet? q.sheet).map Sheet.name) q.col q.row)
      (f.propagated ((w'.sheet? q.sheet).map Sheet.name) q.col q.row)
    rw [hframe.sheetName_eq]
    exact E.propagated _ _ _ hef

/-- The same is computed for a cell as long as no value changes that its formula reads, nor its own one if the
formula has not been read. -/
theorem computedValue_congr {w w' : Workbook} (hground : Ground env w₀ D) (hframe : w.SameFrame w₀)
    (hframe' : w'.SameFrame w₀) {p : Position} (hcontent : w.content? p = w₀.content? p)
    (hcontent' : w'.content? p = w₀.content? p)
    (hunread : ∀ f, w.content? p = some (.formula f) → f.staticError? = none → f.tree? = none →
      w.value p = w'.value p)
    (hreads : ∀ q, env.graph.Reads p q → w.value q = w'.value q) :
    computedValue env w p = computedValue env w' p := by
  refine Value.matches_identical.mp (computedValue_matches ?_
    (fun f hf hs hx => Value.Matches.of_eq (hunread f hf hs hx)) ?_)
  · rw [hcontent, hcontent']
    exact Workbook.rel_content? w₀ p
  · intro x hstatic hx
    obtain ⟨htree, hkind⟩ := Workbook.formula_congr hcontent
    rw [htree] at hx
    rw [hkind] at hstatic
    refine evaluate_congr (hframe'.trans hframe.symm) ?_ fun q hq => Value.Matches.of_eq (hreads q hq)
    rw [hframe.scope_eq]
    exact hground.resolved p x hstatic hx

/-- A computed cell that did not become a circular error shows its static error, or what its formula
evaluates to. -/
theorem Valid.evaluated (h : Valid env w₀ D s) (q : Position) (hq : q ∈ s.computed) (hnot : q ∉ s.circular) :
    Evaluated env s.workbook q := by
  obtain ⟨hstatic, htree⟩ := computedValue_formula env s.workbook q
  rw [← h.computed_eq q hq hnot] at hstatic htree
  exact ⟨hstatic, fun x hnone hx => Value.Agrees.of_eq (htree x hnone hx)⟩

end Valid

/-! ### The stack -/

section Stack

variable {env : Surroundings}

theorem Awaiting.mono {dirty dirty' : PositionSet} {above above' : List Position} {stack : List Frame}
    (h : Awaiting env dirty above stack) (hdirty : ∀ q ∈ dirty', q ∈ dirty)
    (habove : ∀ q ∈ dirty', q ∈ above → q ∈ above') : Awaiting env dirty' above' stack := by
  induction stack generalizing above above' with
  | nil => trivial
  | cons f below ih =>
    obtain ⟨hf, hbelow⟩ := h
    constructor
    · intro q hreads hq
      rcases hf q hreads (hdirty q hq) with ha | ha | ha
      · exact Or.inl ha
      · exact Or.inr (Or.inl (habove q hq ha))
      · exact Or.inr (Or.inr ha)
    · apply ih hbelow
      intro q hq ha
      rcases List.mem_cons.mp ha with rfl | ha
      · exact List.mem_cons_self
      · exact List.mem_cons_of_mem _ (habove q hq ha)

@[simp]
theorem map_cell_markCycle (p : Position) (stack : List Frame) :
    (markCycle p stack).map Frame.cell = stack.map Frame.cell := by
  induction stack with
  | nil => rfl
  | cons f below ih =>
    unfold markCycle
    split
    · rfl
    · rw [List.map_cons, ih]
      rfl

theorem Awaiting.markCycle {dirty : PositionSet} {above : List Position} {stack : List Frame}
    (h : Awaiting env dirty above stack) (p : Position) :
    Awaiting env dirty above (markCycle p stack) := by
  induction stack generalizing above with
  | nil => trivial
  | cons f below ih =>
    obtain ⟨hf, hbelow⟩ := h
    unfold Pass.markCycle
    split
    · refine ⟨fun q hreads hq => ?_, hbelow⟩
      exact (hf q hreads hq).imp_right fun ha => ha.imp_right fun hc => ⟨rfl, hc.2⟩
    · refine ⟨fun q hreads hq => ?_, ih hbelow⟩
      rw [List.map_cons, map_cell_markCycle]
      exact (hf q hreads hq).imp_right fun ha => ha.imp_right fun hc => ⟨rfl, hc.2⟩

/-- Marking the frames down to a cell changes nothing but marks. A frame that is marked by it stands
between that cell and the top, and so is read by the one and reads the other. -/
theorem mem_markCycle {R : Position → Position → Prop} {p : Position} {top : Frame} {below : List Frame}
    (hchain : ((top :: below).map Frame.cell).IsChain fun upper lower => R lower upper)
    (hp : p ∈ (top :: below).map Frame.cell) {f : Frame} (hf : f ∈ markCycle p (top :: below)) :
    ∃ g ∈ top :: below, g.cell = f.cell ∧ g.awaited = f.awaited ∧ (f.cyclic = true → g.cyclic = true ∨
      (ReflTransGen R p f.cell ∧ ReflTransGen R f.cell top.cell)) := by
  induction below generalizing top with
  | nil =>
    have hcell : top.cell = p := by
      rw [List.map_singleton, List.mem_singleton] at hp
      exact hp.symm
    rw [markCycle, if_pos hcell, List.mem_singleton] at hf
    subst hf
    exact ⟨top, List.mem_cons_self, rfl, rfl, fun _ => Or.inr ⟨by rw [← hcell], ReflTransGen.refl⟩⟩
  | cons next below ih =>
    obtain ⟨hstep, hrest⟩ := List.isChain_cons_cons.mp hchain
    by_cases hcell : top.cell = p
    · rw [markCycle, if_pos hcell] at hf
      rcases List.mem_cons.mp hf with rfl | hf
      · exact ⟨top, List.mem_cons_self, rfl, rfl,
          fun _ => Or.inr ⟨by rw [← hcell], ReflTransGen.refl⟩⟩
      · exact ⟨f, List.mem_cons_of_mem _ hf, rfl, rfl, Or.inl⟩
    · have hbelow : p ∈ (next :: below).map Frame.cell := by
        rw [List.map_cons] at hp
        exact (List.mem_cons.mp hp).resolve_left (Ne.symm hcell)
      rw [markCycle, if_neg hcell] at hf
      rcases List.mem_cons.mp hf with rfl | hf
      · refine ⟨top, List.mem_cons_self, rfl, rfl, fun _ => Or.inr ⟨?_, ReflTransGen.refl⟩⟩
        exact (reads_top_of_chain hrest hbelow).tail hstep
      · obtain ⟨g, hg, hgcell, hgawaited, hcyclic⟩ := ih hrest hbelow hf
        refine ⟨g, List.mem_cons_of_mem _ hg, hgcell, hgawaited, fun hc => ?_⟩
        exact (hcyclic hc).imp_right fun hway => ⟨hway.1, hway.2.tail hstep⟩

end Stack

end Pass

end Spreadsheet
