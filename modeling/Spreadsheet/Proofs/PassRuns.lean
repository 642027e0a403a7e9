import Spreadsheet.Proofs.PassSteps

/-!
# Pass runs: what holds when a pass has come to its end

A pass goes on by single steps, and takes up a dirty cell whenever its stack is empty (`Pass.Next`). Both
keep the invariant, so it holds in every state that the pass leads to (`sound_of_leads`). A cell that was
taken up is on the stack or computed from then on, so when a pass has gone through a list of cells, none
of them is dirty any more (`leads_foldl_compute`).
-/

namespace Spreadsheet

open DependencyGraph Relation

namespace Pass

variable {env : Surroundings} {w₀ : Workbook} {D : PositionSet} {s t : Pass}

/-- How a pass goes on: by a step, or with the next dirty cell when the stack is empty. -/
inductive Next (env : Surroundings) (s : Pass) : Pass → Prop
  | step {t : Pass} (h : step env s = some t) : Next env s t
  | takeUp {p : Position} (hs : s.stack = []) (hp : p ∈ s.dirty) :
      Next env s (begin env { s with waiting := s.dirty } p)

/-- One state of a pass leads to another. -/
def Leads (env : Surroundings) : Pass → Pass → Prop := ReflTransGen (Next env)

/-- The invariant holds, and if there are cells on the stack, it is known which are waiting. -/
structure Sound (env : Surroundings) (w₀ : Workbook) (D : PositionSet) (s : Pass) : Prop where
  valid : Valid env w₀ D s
  running : s.stack = [] ∨ Running env w₀ D s

theorem Sound.running_of_step (h : Sound env w₀ D s) (hstep : step env s = some t) :
    Running env w₀ D s := by
  rcases h.running with hs | hr
  · unfold step at hstep
    rw [hs] at hstep
    cases hstep
  · exact hr

theorem stacked_eq_nil (hs : s.stack = []) : s.stacked = [] := by
  unfold stacked
  rw [hs]
  rfl

/-- A cell taken up with an empty stack sets the pass running. -/
theorem running_takeUp (h : Valid env w₀ D s) (hground : Ground env w₀ D) (hs : s.stack = [])
    {p : Position} (hp : p ∈ s.dirty) :
    Running env w₀ D (begin env { s with waiting := s.dirty } p) := by
  obtain ⟨c, hc⟩ := h.stored hground hp
  have hvalid : Valid env w₀ D { s with waiting := s.dirty } := { h with }
  have hnil : Pass.stacked { s with waiting := s.dirty } = [] := stacked_eq_nil hs
  have hnot : p ∉ Pass.stacked { s with waiting := s.dirty } := by
    rw [hnil]
    exact List.not_mem_nil
  refine ⟨valid_begin hvalid hground hp hnot ?_, ?_, ?_⟩
  · rw [hnil]
    intro q hq
    cases hq
  · refine waiting_begin (fun q => ?_) hc
    rw [hnil]
    simp
  · refine awaiting_begin (s := { s with waiting := s.dirty }) hc ?_
    show Awaiting env s.dirty [p] s.stack
    rw [hs]
    trivial

/-- **The invariant is kept as a pass goes on.** -/
theorem sound_next (h : Sound env w₀ D s) (hground : Ground env w₀ D) (hnext : Next env s t) :
    Sound env w₀ D t := by
  cases hnext with
  | step hstep =>
    have hrunning := running_step (h.running_of_step hstep) hground hstep
    exact ⟨hrunning.toValid, Or.inr hrunning⟩
  | takeUp hs hp =>
    have hrunning := running_takeUp h.valid hground hs hp
    exact ⟨hrunning.toValid, Or.inr hrunning⟩

theorem sound_of_leads (h : Sound env w₀ D s) (hground : Ground env w₀ D) (hleads : Leads env s t) :
    Sound env w₀ D t := by
  induction hleads with
  | refl => exact h
  | tail _ hnext ih => exact sound_next ih hground hnext

/-! ### How the cells on the stack change -/

/-- What becomes of the cells on the stack: one more is taken up, the one on top is finished, or they stay
what they are. -/
inductive Turn (s t : Pass) : Prop
  | push (p : Position) (hnew : p ∉ s.stacked) (hstacked : t.stacked = p :: s.stacked)
      (hcomputed : t.computed = s.computed) (hdirty : t.dirty = s.dirty)
  | pop (p : Position) (hstacked : s.stacked = p :: t.stacked) (hcomputed : t.computed = p :: s.computed)
      (hdirty : t.dirty = s.dirty.erase p)
  | keep (hstacked : t.stacked = s.stacked) (hcomputed : t.computed = s.computed)
      (hdirty : t.dirty = s.dirty)

theorem turn_move (hground : Ground env w₀ D) (h : Valid env w₀ D s) (hmove : Move env s t) : Turn s t := by
  cases hmove with
  | finish hs => exact Turn.pop _ (stacked_of_stack hs) rfl rfl
  | @takeUp cell next awaited cyclic below hs hdirty hnot =>
    obtain ⟨c, hc⟩ := h.stored hground hdirty
    rw [begin_eq (s := { s with stack := ⟨cell, awaited, cyclic⟩ :: below }) hc]
    refine Turn.push next hnot ?_ rfl rfl
    rw [stacked_of_stack hs]
    rfl
  | mark hs hdirty hmem =>
    refine Turn.keep ?_ rfl rfl
    unfold stacked
    rw [map_cell_markCycle, hs]
    rfl
  | drop hs hclean =>
    refine Turn.keep ?_ rfl rfl
    rw [stacked_of_stack hs]
    rfl

theorem turn_next (h : Sound env w₀ D s) (hground : Ground env w₀ D) (hnext : Next env s t) : Turn s t := by
  cases hnext with
  | step hstep => exact turn_move hground h.valid ((h.running_of_step hstep).move hstep)
  | @takeUp p hs hp =>
    obtain ⟨c, hc⟩ := h.valid.stored hground hp
    rw [begin_eq (s := { s with waiting := s.dirty }) hc]
    refine Turn.push p ?_ rfl rfl rfl
    rw [stacked_eq_nil hs]
    exact List.not_mem_nil

/-! ### What only grows and what only shrinks -/

/-- What a pass has done in one state is not undone in another. -/
structure Onward (s t : Pass) : Prop where
  computed : ∀ q ∈ s.computed, q ∈ t.computed
  taken : ∀ q ∈ s.stacked, q ∈ t.stacked ∨ q ∈ t.computed

theorem onward_next (h : Sound env w₀ D s) (hground : Ground env w₀ D) (hnext : Next env s t) :
    Onward s t := by
  cases turn_next h hground hnext with
  | push p hnew hstacked hcomputed hdirty =>
    exact ⟨fun q hq => hcomputed ▸ hq, fun q hq => Or.inl (hstacked ▸ List.mem_cons_of_mem p hq)⟩
  | pop p hstacked hcomputed hdirty =>
    refine ⟨fun q hq => hcomputed ▸ List.mem_cons_of_mem p hq, fun q hq => ?_⟩
    rw [hstacked] at hq
    rw [hcomputed]
    rcases List.mem_cons.mp hq with rfl | hq
    · exact Or.inr List.mem_cons_self
    · exact Or.inl hq
  | keep hstacked hcomputed hdirty =>
    exact ⟨fun q hq => hcomputed ▸ hq, fun q hq => Or.inl (hstacked ▸ hq)⟩

theorem onward_of_leads (h : Sound env w₀ D s) (hground : Ground env w₀ D) (hleads : Leads env s t) :
    Onward s t := by
  induction hleads with
  | refl => exact ⟨fun _ hq => hq, fun _ hq => Or.inl hq⟩
  | tail hway hnext ih =>
    have honward := onward_next (sound_of_leads h hground hway) hground hnext
    exact ⟨fun q hq => honward.computed q (ih.computed q hq),
      fun q hq => (ih.taken q hq).elim (honward.taken q) fun hc => Or.inr (honward.computed q hc)⟩

/-- No cell becomes dirty during a pass. -/
theorem dirty_of_leads (h : Sound env w₀ D s) (hground : Ground env w₀ D) (hleads : Leads env s t)
    {q : Position} (hq : q ∈ t.dirty) : q ∈ s.dirty := by
  obtain ⟨hD, hnot⟩ := ((sound_of_leads h hground hleads).valid.dirty_iff q).mp hq
  exact (h.valid.dirty_iff q).mpr ⟨hD, fun hc => hnot ((onward_of_leads h hground hleads).computed q hc)⟩

/-! ### Runs -/

theorem step_eq_none : step env s = none ↔ s.stack = [] := by
  unfold step
  split
  · next hs => simp [hs]
  · next hs => simp [hs]
  · next hs =>
    dsimp only
    split
    · simp [hs]
    · split <;> simp [hs]

/-- Steps alone lead from one state to another. -/
def Steps (env : Surroundings) : Pass → Pass → Prop := ReflTransGen fun s t => step env s = some t

theorem settle_of_none {env : Surroundings} {s : Pass} (h : step env s = none) : settle env s = s := by
  rw [settle]
  split
  · rfl
  · next t hsome =>
    rw [h] at hsome
    cases hsome

theorem settle_of_some {env : Surroundings} {s t : Pass} (h : step env s = some t) :
    settle env s = settle env t := by
  rw [settle]
  split
  · next hnone =>
    rw [h] at hnone
    cases hnone
  · next u hu =>
    rw [h] at hu
    cases hu
    rfl

theorem steps_settle (env : Surroundings) (s : Pass) :
    Steps env s (settle env s) ∧ (settle env s).stack = [] := by
  induction s using settle.induct env with
  | case1 s hnone =>
    rw [settle_of_none hnone]
    exact ⟨ReflTransGen.refl, step_eq_none.mp hnone⟩
  | case2 s t hsome ih =>
    rw [settle_of_some hsome]
    exact ⟨ReflTransGen.head hsome ih.1, ih.2⟩

theorem leads_settle (env : Surroundings) (s : Pass) :
    Leads env s (settle env s) ∧ (settle env s).stack = [] := by
  obtain ⟨hsteps, hstack⟩ := steps_settle env s
  exact ⟨ReflTransGen.mono (fun _ _ hstep => Next.step hstep) _ _ hsteps, hstack⟩

/-- Computing a cell with an empty stack leaves the stack empty and the cell clean. -/
theorem leads_compute (h : Sound env w₀ D s) (hground : Ground env w₀ D) (hs : s.stack = [])
    (p : Position) :
    Leads env s (compute env s p) ∧ (compute env s p).stack = [] ∧ p ∉ (compute env s p).dirty := by
  unfold compute
  split
  · next hp =>
    obtain ⟨hleads, hstack⟩ := leads_settle env (begin env { s with waiting := s.dirty } p)
    have hnext : Next env s _ := Next.takeUp hs hp
    have hsound := sound_next h hground hnext
    obtain ⟨c, hc⟩ := h.valid.stored hground hp
    have hmem : p ∈ (begin env { s with waiting := s.dirty } p).stacked := by
      rw [begin_eq (s := { s with waiting := s.dirty }) hc]
      exact List.mem_cons_self
    refine ⟨ReflTransGen.head hnext hleads, hstack, fun hdirty => ?_⟩
    rcases (onward_of_leads hsound hground hleads).taken p hmem with ht | ht
    · rw [stacked_eq_nil hstack] at ht
      exact List.not_mem_nil ht
    · exact (((sound_of_leads hsound hground hleads).valid.dirty_iff p).mp hdirty).2 ht
  · next hp => exact ⟨ReflTransGen.refl, hs, hp⟩

/-- **Computing several cells, one after the other, leaves all of them clean.** -/
theorem leads_foldl_compute (h : Sound env w₀ D s) (hground : Ground env w₀ D) (hs : s.stack = [])
    (ps : List Position) :
    Leads env s (ps.foldl (compute env) s) ∧ (ps.foldl (compute env) s).stack = [] ∧
      ∀ p ∈ ps, p ∉ (ps.foldl (compute env) s).dirty := by
  induction ps generalizing s with
  | nil => exact ⟨ReflTransGen.refl, hs, fun p hp => absurd hp List.not_mem_nil⟩
  | cons p ps ih =>
    obtain ⟨hleads, hstack, hclean⟩ := leads_compute h hground hs p
    have hsound := sound_of_leads h hground hleads
    obtain ⟨hrest, hend, hall⟩ := ih hsound hstack
    refine ⟨hleads.trans hrest, hend, fun q hq => ?_⟩
    rcases List.mem_cons.mp hq with rfl | hq
    · exact fun hdirty => hclean (dirty_of_leads hsound hground hrest hdirty)
    · exact hall q hq

end Pass

end Spreadsheet
