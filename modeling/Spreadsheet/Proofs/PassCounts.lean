import Mathlib.Data.Prod.Lex
import Mathlib.Order.OrderIsoNat
import Spreadsheet.Proofs.PassRuns

/-!
# Pass counts: a pass ends and computes no cell twice

The log of a pass is written when a cell is finished, and only then (`finish_or_same`). So a cell stands in
it exactly if it was finished at some moment, and among the circular errors exactly if it had a mark then
(`mem_log_iff`). It never stands there twice (`once_of_leads`), since a finished cell is not dirty and only
dirty cells are taken up.

That a pass ends does not depend on the order in which it takes up cells: each dirty cell can be taken up
once and finished once, and between the two there is only so much to wait for (`remaining_next`,
`ends_of_sound`). A pass over a single cell takes up nothing but what is read from there
(`reads_of_compute`).
-/

namespace Spreadsheet

open DependencyGraph Relation

namespace Pass

variable {env : Surroundings} {w₀ : Workbook} {D : PositionSet} {s t : Pass}

/-! ### The log of a pass -/

/-- A pass goes on by finishing the cell on top of the stack, or without writing to its log. -/
theorem finish_or_same (h : Next env s t) :
    (∃ p cyclic below, s.stack = ⟨p, [], cyclic⟩ :: below ∧
        t = finish env { s with stack := below } ⟨p, [], cyclic⟩) ∨
      (t.computed = s.computed ∧ t.circular = s.circular) := by
  have hbegin : ∀ (u : Pass) (p : Position),
      (begin env u p).computed = u.computed ∧ (begin env u p).circular = u.circular := by
    intro u p
    unfold begin
    split <;> exact ⟨rfl, rfl⟩
  cases h with
  | takeUp hs hp => exact Or.inr (hbegin _ _)
  | step h =>
    unfold step at h
    split at h
    · cases h
    · next p cyclic below hs =>
      cases h
      exact Or.inl ⟨p, cyclic, below, hs, rfl⟩
    · dsimp only at h
      split at h
      · cases h
        exact Or.inr (hbegin _ _)
      · split at h
        · cases h
          exact Or.inr ⟨rfl, rfl⟩
        · cases h
          exact Or.inr ⟨rfl, rfl⟩

/-- No cell was computed twice, and those that became circular errors are some of the computed ones. -/
structure Once (s : Pass) : Prop where
  nodup : s.computed.Nodup
  sublist : s.circular.Sublist s.computed

/-- **A pass computes no cell twice.** What is finished was dirty, and what was computed is not. -/
theorem once_next (h : Sound env w₀ D s) (hnext : Next env s t) (honce : Once s) : Once t := by
  rcases finish_or_same hnext with ⟨p, cyclic, below, hs, rfl⟩ | ⟨hcomputed, hcircular⟩
  · have hdirty : p ∈ s.dirty := h.valid.stacked_dirty p (top_mem_stacked hs)
    refine ⟨List.nodup_cons.mpr ⟨((h.valid.dirty_iff p).mp hdirty).2, honce.nodup⟩, ?_⟩
    show List.Sublist (if cyclic then p :: s.circular else s.circular) (p :: s.computed)
    cases cyclic with
    | true => exact honce.sublist.cons_cons p
    | false => exact honce.sublist.cons p
  · exact ⟨hcomputed ▸ honce.nodup, hcomputed ▸ hcircular ▸ honce.sublist⟩

theorem once_of_leads (h : Sound env w₀ D s) (hground : Ground env w₀ D) (hleads : Leads env s t)
    (honce : Once s) : Once t := by
  induction hleads with
  | refl => exact honce
  | tail hway hnext ih => exact once_next (sound_of_leads h hground hway) hnext ih

/-- On the way from one state to another a cell is finished, with a mark or without: it becomes a circular
error, or its formula is evaluated. -/
def Finishes (env : Surroundings) (s t : Pass) (p : Position) (cyclic : Bool) : Prop :=
  ∃ u below, Leads env s u ∧ u.stack = ⟨p, [], cyclic⟩ :: below ∧
    Leads env (finish env { u with stack := below } ⟨p, [], cyclic⟩) t

theorem Finishes.tail {u : Pass} {p : Position} {cyclic : Bool} (h : Finishes env s t p cyclic)
    (hnext : Next env t u) : Finishes env s u p cyclic := by
  obtain ⟨v, below, hbefore, hs, hafter⟩ := h
  exact ⟨v, below, hbefore, hs, hafter.tail hnext⟩

/-- What stands in the log of a pass stays there. -/
theorem log_of_leads (h : Leads env s t) :
    (∀ p ∈ s.computed, p ∈ t.computed) ∧ ∀ p ∈ s.circular, p ∈ t.circular := by
  induction h with
  | refl => exact ⟨fun _ hp => hp, fun _ hp => hp⟩
  | tail _ hnext ih =>
    rcases finish_or_same hnext with ⟨p, cyclic, below, -, rfl⟩ | ⟨hcomputed, hcircular⟩
    · refine ⟨fun q hq => List.mem_cons_of_mem p (ih.1 q hq), fun q hq => ?_⟩
      cases cyclic with
      | true => exact List.mem_cons_of_mem p (ih.2 q hq)
      | false => exact ih.2 q hq
    · rw [hcomputed, hcircular]
      exact ih

/-- **The log of a pass has the cells that were finished**, those among the circular errors that had a
mark. -/
theorem mem_log_iff (hleads : Leads env s t) (hc : s.computed = []) (hcircular : s.circular = [])
    (p : Position) :
    (p ∈ t.computed ↔ ∃ cyclic, Finishes env s t p cyclic) ∧
      (p ∈ t.circular ↔ Finishes env s t p true) := by
  -- From right to left: a cell that is finished is put into the log, and stays there.
  have hlogged : ∀ cyclic, Finishes env s t p cyclic →
      p ∈ t.computed ∧ (cyclic = true → p ∈ t.circular) := by
    rintro cyclic ⟨u, below, -, -, hafter⟩
    obtain ⟨hcomputed, hmarked⟩ := log_of_leads hafter
    refine ⟨hcomputed p List.mem_cons_self, fun hcyclic => hmarked p ?_⟩
    subst hcyclic
    exact List.mem_cons_self
  have hfinished : (p ∈ t.computed → ∃ cyclic, Finishes env s t p cyclic) ∧
      (p ∈ t.circular → Finishes env s t p true) := by
    clear hlogged
    induction hleads with
    | refl =>
      rw [hc, hcircular]
      exact ⟨fun hp => absurd hp List.not_mem_nil, fun hp => absurd hp List.not_mem_nil⟩
    | @tail u t hway hnext ih =>
      have hcomputed : p ∈ u.computed → ∃ cyclic, Finishes env s t p cyclic := fun hp =>
        (ih.1 hp).imp fun _ hfinishes => hfinishes.tail hnext
      have hmarked : p ∈ u.circular → Finishes env s t p true := fun hp => (ih.2 hp).tail hnext
      rcases finish_or_same hnext with ⟨q, cyclic, below, hs, rfl⟩ | ⟨hsame, hsame'⟩
      · have hlast : Finishes env s (finish env { u with stack := below } ⟨q, [], cyclic⟩) q cyclic :=
          ⟨u, below, hway, hs, ReflTransGen.refl⟩
        constructor
        · intro hp
          rcases List.mem_cons.mp hp with rfl | hp
          · exact ⟨cyclic, hlast⟩
          · exact hcomputed hp
        · intro hp
          cases cyclic with
          | true =>
            rcases List.mem_cons.mp hp with rfl | hp
            · exact hlast
            · exact hmarked hp
          | false => exact hmarked hp
      · rw [hsame, hsame']
        exact ⟨hcomputed, hmarked⟩
  exact ⟨⟨hfinished.1, fun ⟨cyclic, hfinishes⟩ => (hlogged cyclic hfinishes).1⟩,
    ⟨hfinished.2, fun hfinishes => (hlogged true hfinishes).2 rfl⟩⟩

/-! ### The end of a pass -/

/-- What remains of a pass: how often a cell can still be taken up or finished, and what is left to do
until then. -/
def remaining (env : Surroundings) (s : Pass) : ℕ ×ₗ ℕ :=
  toLex (2 * s.dirty.size - s.stacked.length, left env s.stack s.dirty s.waiting)

/-- No more cells are on the stack than are dirty. -/
theorem Valid.length_stacked (h : Valid env w₀ D s) : s.stacked.length ≤ s.dirty.size := by
  rw [← Std.TreeSet.length_toList]
  refine (h.nodup.subperm fun q hq => ?_).length_le
  exact Std.TreeSet.mem_toList.mpr (h.stacked_dirty q hq)

/-- **What remains of a pass gets less as it goes on.** Taking up a cell and finishing one count for
themselves, and the steps in between have less left to do. -/
theorem remaining_next (h : Sound env w₀ D s) (hground : Ground env w₀ D) (hnext : Next env s t) :
    remaining env t < remaining env s := by
  have hbound := h.valid.length_stacked
  have hbound' := (sound_next h hground hnext).valid.length_stacked
  cases turn_next h hground hnext with
  | push p hnew hstacked hcomputed hdirty =>
    refine Prod.Lex.toLex_lt_toLex.mpr (Or.inl ?_)
    rw [hstacked, hdirty, List.length_cons] at hbound' ⊢
    omega
  | pop p hstacked hcomputed hdirty =>
    have hp : p ∈ s.dirty := by
      apply h.valid.stacked_dirty
      rw [hstacked]
      exact List.mem_cons_self
    have hsize : t.dirty.size = s.dirty.size - 1 := by
      rw [hdirty, Std.TreeSet.size_erase]
      exact if_pos hp
    refine Prod.Lex.toLex_lt_toLex.mpr (Or.inl ?_)
    rw [hstacked, List.length_cons] at hbound ⊢
    omega
  | keep hstacked hcomputed hdirty =>
    refine Prod.Lex.toLex_lt_toLex.mpr (Or.inr ⟨by rw [hstacked, hdirty], ?_⟩)
    cases hnext with
    | step hstep => exact left_step env hstep
    | @takeUp p hs hp =>
      obtain ⟨c, hc⟩ := h.valid.stored hground hp
      rw [begin_eq (s := { s with waiting := s.dirty }) hc, stacked_eq_nil hs] at hstacked
      exact absurd hstacked (List.cons_ne_nil _ _)

/-- **No pass goes on forever**, whichever dirty cells it takes up. -/
theorem ends_of_sound (h : Sound env w₀ D s) (hground : Ground env w₀ D) (run : ℕ → Pass) (hs : run 0 = s) :
    ∃ n, ¬Next env (run n) (run (n + 1)) := by
  by_contra hall
  have hnext : ∀ n, Next env (run n) (run (n + 1)) := fun n => not_not.mp (not_exists.mp hall n)
  have hsound : ∀ n, Sound env w₀ D (run n) := by
    intro n
    induction n with
    | zero => rwa [hs]
    | succ n ih => exact sound_next ih hground (hnext n)
  have hless : ∀ n, remaining env (run (n + 1)) < remaining env (run n) := fun n =>
    remaining_next (hsound n) hground (hnext n)
  exact not_strictAnti_of_wellFoundedLT (fun n => remaining env (run n)) (strictAnti_nat_of_succ_lt hless)

/-! ### What is taken up along with a cell -/

/-- A pass that has begun with a cell and goes on by steps only takes up what is read from there. -/
theorem reads_of_steps (h : Running env w₀ D s) (hground : Ground env w₀ D) {p : Position}
    (hs : ∀ q, q ∈ s.stacked ∨ q ∈ s.computed → ReflTransGen env.graph.Reads p q) (hsteps : Steps env s t) :
    ∀ q, q ∈ t.stacked ∨ q ∈ t.computed → ReflTransGen env.graph.Reads p q := by
  suffices hboth : Running env w₀ D t ∧ ∀ q, q ∈ t.stacked ∨ q ∈ t.computed →
      ReflTransGen env.graph.Reads p q from hboth.2
  induction hsteps with
  | refl => exact ⟨h, hs⟩
  | @tail u t _ hstep ih =>
    obtain ⟨hu, hread⟩ := ih
    refine ⟨running_step hu hground hstep, ?_⟩
    cases hu.move hstep with
    | @finish cell cyclic below hstack =>
      rintro q (hq | hq)
      · exact hread q (Or.inl (by rw [stacked_of_stack hstack]; exact List.mem_cons_of_mem _ hq))
      · rcases List.mem_cons.mp hq with rfl | hq
        · exact hread q (Or.inl (top_mem_stacked hstack))
        · exact hread q (Or.inr hq)
    | @takeUp cell next awaited cyclic below hstack hdirty hnot =>
      obtain ⟨c, hc⟩ := hu.stored hground hdirty
      rw [begin_eq (s := { u with stack := ⟨cell, awaited, cyclic⟩ :: below }) hc]
      have hcell : ReflTransGen env.graph.Reads p cell :=
        hread cell (Or.inl (top_mem_stacked hstack))
      rintro q (hq | hq)
      · rcases List.mem_cons.mp hq with rfl | hq
        · exact hcell.tail (hu.reads_next hstack)
        · refine hread q (Or.inl ?_)
          rw [stacked_of_stack hstack]
          exact hq
      · exact hread q (Or.inr hq)
    | @mark cell next awaited cyclic below hstack hdirty hmem =>
      rintro q (hq | hq)
      · refine hread q (Or.inl ?_)
        rw [stacked_of_stack hstack]
        unfold stacked at hq
        rw [map_cell_markCycle] at hq
        exact hq
      · exact hread q (Or.inr hq)
    | @drop cell next awaited cyclic below hstack hclean =>
      rintro q (hq | hq)
      · refine hread q (Or.inl ?_)
        rw [stacked_of_stack hstack]
        exact hq
      · exact hread q (Or.inr hq)

/-- **Computing a cell computes nothing but it and what it reads**, directly or through others. -/
theorem reads_of_compute (h : Sound env w₀ D s) (hground : Ground env w₀ D) (hs : s.stack = [])
    (hc : s.computed = []) {p q : Position} (hq : q ∈ (compute env s p).computed) :
    ReflTransGen env.graph.Reads p q := by
  unfold compute at hq
  split at hq
  · next hp =>
    obtain ⟨c, hcell⟩ := h.valid.stored hground hp
    refine reads_of_steps (running_takeUp h.valid hground hs hp) hground (fun r hr => ?_)
      (steps_settle env _).1 q (Or.inr hq)
    rw [begin_eq (s := { s with waiting := s.dirty }) hcell] at hr
    rcases hr with hr | hr
    · rcases List.mem_cons.mp hr with rfl | hr
      · exact ReflTransGen.refl
      · rw [hs] at hr
        exact absurd hr List.not_mem_nil
    · rw [hc] at hr
      exact absurd hr List.not_mem_nil
  · rw [hc] at hq
    exact absurd hq List.not_mem_nil

end Pass

end Spreadsheet
