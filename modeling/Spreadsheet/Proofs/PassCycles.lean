import Spreadsheet.Proofs.PassRuns

/-!
# Pass cycles: which cells become circular errors

A cell that is taken up becomes a circular error exactly if it lies on a cycle of cells that are all
unfinished at that moment (`circular_iff_cycleWithin`). Cells that were finished before do not count, so
of two cycles that share cells one may be missed at some of its cells; it is never missed at all of them.

`Pass.Tracks` follows one cell from the moment it is taken up. While it is open and not marked, every
unfinished cell that is read from there is still awaited or stands above it. So when its turn comes
without a mark, what it reads, directly or through others, is finished, and it is on no cycle.
-/

namespace Spreadsheet

open DependencyGraph Relation

/-- A cell lies on a cycle of cells that all belong to a set. -/
def DependencyGraph.CycleWithin (g : DependencyGraph) (cells : PositionSet) (p : Position) : Prop :=
  TransGen (fun reader q => g.Reads reader q ∧ reader ∈ cells ∧ q ∈ cells) p p

namespace Pass

variable {env : Surroundings} {w₀ : Workbook} {D : PositionSet} {s t : Pass}

/-! ### Marks -/

/-- Marks change neither cells nor what they wait for, so what is said of these alone stays true. -/
theorem forall_mem_markCycle {P : Position → List Position → Prop} {q : Position} {upper below : List Frame}
    (h : ∀ f ∈ upper ++ below, P f.cell f.awaited) :
    ∀ f ∈ markCycle q upper ++ below, P f.cell f.awaited := by
  induction upper with
  | nil => exact h
  | cons top upper ih =>
    rw [List.cons_append, List.forall_mem_cons] at h
    unfold markCycle
    split
    · exact List.forall_mem_cons.mpr h
    · exact List.forall_mem_cons.mpr ⟨h.1, ih h.2⟩

/-- Marks stop at the first frame of the cell. -/
theorem markCycle_append {p : Position} {upper : List Frame} (hp : p ∈ upper.map Frame.cell)
    (below : List Frame) : markCycle p (upper ++ below) = markCycle p upper ++ below := by
  induction upper with
  | nil => exact absurd hp List.not_mem_nil
  | cons f upper ih =>
    rw [List.cons_append]
    unfold markCycle
    split
    · rfl
    · next hcell =>
      rw [List.map_cons] at hp
      rw [ih ((List.mem_cons.mp hp).resolve_left (Ne.symm hcell))]
      rfl

/-- Marks reach every frame above which the cell does not stand. -/
theorem marked_of_not_above {p : Position} {upper : List Frame} (below : List Frame) (f : Frame)
    (hp : p ∉ upper.map Frame.cell) :
    ∃ g ∈ markCycle p (upper ++ f :: below), g.cell = f.cell ∧ g.cyclic = true := by
  induction upper with
  | nil =>
    rw [List.nil_append]
    unfold markCycle
    split <;> exact ⟨_, List.mem_cons_self, rfl, rfl⟩
  | cons top upper ih =>
    rw [List.map_cons, List.mem_cons, not_or] at hp
    obtain ⟨g, hg, hsame⟩ := ih hp.2
    refine ⟨g, ?_, hsame⟩
    rw [List.cons_append]
    unfold markCycle
    rw [if_neg (Ne.symm hp.1)]
    exact List.mem_cons_of_mem _ hg

/-- No mark is taken back. -/
theorem marked_of_marked {p : Position} {stack : List Frame} {f : Frame} (hf : f ∈ stack)
    (hcyclic : f.cyclic = true) : ∃ g ∈ markCycle p stack, g.cell = f.cell ∧ g.cyclic = true := by
  induction stack with
  | nil => exact absurd hf List.not_mem_nil
  | cons top below ih =>
    unfold markCycle
    rcases List.mem_cons.mp hf with rfl | hf
    · split <;> exact ⟨_, List.mem_cons_self, rfl, rfl⟩
    · split
      · exact ⟨f, List.mem_cons_of_mem _ hf, rfl, hcyclic⟩
      · obtain ⟨g, hg, hsame⟩ := ih hf
        exact ⟨g, List.mem_cons_of_mem _ hg, hsame⟩

/-! ### Following a cell -/

/-- What is known of a cell after it was taken up, when the cells `unfinished` were not finished. -/
inductive Tracks (env : Surroundings) (unfinished : PositionSet) (p : Position) (s : Pass) : Prop
  /-- It is open and not marked. What is read from there is awaited or stands above. -/
  | opened (upper : List Frame) (awaited : List Position) (below : List Frame)
      (hs : s.stack = upper ++ ⟨p, awaited, false⟩ :: below)
      (ahead : ∀ f ∈ upper ++ [⟨p, awaited, false⟩], ∀ z, env.graph.Reads f.cell z → z ∈ s.dirty →
        z ∈ f.awaited ∨ z ∈ upper.map Frame.cell)
      (past : ∀ y ∈ unfinished, y ∉ s.dirty → ∀ z, env.graph.Reads y z → z ∈ s.dirty →
        z ∈ upper.map Frame.cell)
  /-- It is open and marked, with good reason. -/
  | caught (f : Frame) (hf : f ∈ s.stack) (hcell : f.cell = p) (hcyclic : f.cyclic = true)
      (hcycle : env.graph.CycleWithin unfinished p)
  /-- It has been computed. -/
  | done (hcomputed : p ∈ s.computed)
      (hcircular : p ∈ s.circular ↔ env.graph.CycleWithin unfinished p)

variable {unfinished : PositionSet} {p : Position}

/-- A cell that has nothing left to wait for and is not marked lies on no cycle. -/
theorem not_cycleWithin_of_opened (hp : p ∈ s.dirty)
    (ahead : ∀ z, env.graph.Reads p z → z ∉ s.dirty)
    (past : ∀ y ∈ unfinished, y ∉ s.dirty → ∀ z, env.graph.Reads y z → z ∉ s.dirty) :
    ¬env.graph.CycleWithin unfinished p := by
  intro hcycle
  have hwalk : ∀ q, TransGen (fun reader q => env.graph.Reads reader q ∧ reader ∈ unfinished ∧
      q ∈ unfinished) p q → q ∉ s.dirty := by
    intro q hq
    induction hq with
    | single hreads => exact ahead _ hreads.1
    | tail _ hreads ih => exact past _ hreads.2.1 ih _ hreads.1
  exact hwalk p hcycle hp

/-- The cell on top has one cell less to wait for: then that cell is the only one it may miss. -/
theorem opened_advance {cell next : Position} {awaited waits : List Position} {cyclic : Bool}
    {upper rest below : List Frame} {dirty : PositionSet}
    (hs : ⟨cell, next :: awaited, cyclic⟩ :: rest = upper ++ ⟨p, waits, false⟩ :: below)
    (ahead : ∀ f ∈ upper ++ [⟨p, waits, false⟩], ∀ z, env.graph.Reads f.cell z → z ∈ dirty →
      z ∈ f.awaited ∨ z ∈ upper.map Frame.cell) :
    ∃ upper' waits', ⟨cell, awaited, cyclic⟩ :: rest = upper' ++ ⟨p, waits', false⟩ :: below ∧
      upper'.map Frame.cell = upper.map Frame.cell ∧
      ∀ f ∈ upper' ++ [⟨p, waits', false⟩], ∀ z, env.graph.Reads f.cell z → z ∈ dirty →
        z ∈ f.awaited ∨ z ∈ upper.map Frame.cell ∨ z = next := by
  cases upper with
  | nil =>
    obtain ⟨htop, rfl⟩ := List.cons_eq_cons.mp hs
    cases htop
    refine ⟨[], awaited, rfl, rfl, fun f hf z hreads hz => ?_⟩
    obtain rfl := List.mem_singleton.mp hf
    rcases ahead _ List.mem_cons_self z hreads hz with ha | ha
    · rcases List.mem_cons.mp ha with rfl | ha
      · exact Or.inr (Or.inr rfl)
      · exact Or.inl ha
    · exact Or.inr (Or.inl ha)
  | cons top upper =>
    obtain ⟨htop, rfl⟩ := List.cons_eq_cons.mp hs
    subst htop
    refine ⟨⟨cell, awaited, cyclic⟩ :: upper, waits, rfl, rfl, fun f hf z hreads hz => ?_⟩
    rcases List.mem_cons.mp hf with rfl | hf
    · rcases ahead ⟨cell, next :: awaited, cyclic⟩ List.mem_cons_self z hreads hz with ha | ha
      · rcases List.mem_cons.mp ha with rfl | ha
        · exact Or.inr (Or.inr rfl)
        · exact Or.inl ha
      · exact Or.inr (Or.inl ha)
    · exact (ahead f (List.mem_cons_of_mem _ hf) z hreads hz).imp_right Or.inl

/-- A cell between the top of the stack and one that the top reads lies on a cycle of unfinished cells. -/
theorem cycleWithin_of_stack (h : Valid env w₀ D s) (hdirty : ∀ q ∈ s.dirty, q ∈ unfinished)
    {top f : Frame} {rest upper below : List Frame} (hs : s.stack = top :: rest)
    (hsplit : s.stack = upper ++ f :: below) {next : Position} (hreads : env.graph.Reads top.cell next)
    (hnext : next ∈ (f :: below).map Frame.cell) : env.graph.CycleWithin unfinished f.cell := by
  have hin : ∀ q ∈ s.stacked, q ∈ unfinished := fun q hq => hdirty q (h.stacked_dirty q hq)
  have hlower : ∀ q ∈ (f :: below).map Frame.cell, q ∈ s.stacked := by
    intro q hq
    unfold stacked
    rw [hsplit, List.map_append]
    exact List.mem_append_right _ hq
  -- The chain of the stack, with the knowledge that its cells are unfinished.
  have hchain : s.stacked.IsChain fun upper lower =>
      env.graph.Reads lower upper ∧ lower ∈ unfinished ∧ upper ∈ unfinished :=
    h.chain.imp_of_mem_imp fun u l hu hl hread => ⟨hread, hin l hl, hin u hu⟩
  have htop : ReflTransGen (fun reader q => env.graph.Reads reader q ∧ reader ∈ unfinished ∧
      q ∈ unfinished) f.cell top.cell := by
    have hwhole := hchain
    rw [stacked_of_stack hs] at hwhole
    refine reads_top_of_chain hwhole ?_
    rw [← stacked_of_stack hs]
    exact hlower _ List.mem_cons_self
  have hback : ReflTransGen (fun reader q => env.graph.Reads reader q ∧ reader ∈ unfinished ∧
      q ∈ unfinished) next f.cell := by
    have hsuffix := hchain
    unfold stacked at hsuffix
    rw [hsplit, List.map_append] at hsuffix
    exact reads_top_of_chain (List.isChain_append.mp hsuffix).2.1 hnext
  exact TransGen.trans_right htop
    (TransGen.head' ⟨hreads, hin _ (top_mem_stacked hs), hin _ (hlower _ hnext)⟩ hback)

/-! ### Steps -/

/-- A marked cell is still marked when the cell on top has one cell less to wait for. -/
theorem marked_advance {cell next : Position} {awaited : List Position} {cyclic : Bool} {rest : List Frame}
    (hs : s.stack = ⟨cell, next :: awaited, cyclic⟩ :: rest) {f : Frame} (hf : f ∈ s.stack)
    (hcyclic : f.cyclic = true) :
    ∃ g ∈ (⟨cell, awaited, cyclic⟩ :: rest : List Frame), g.cell = f.cell ∧ g.cyclic = true := by
  rw [hs] at hf
  rcases List.mem_cons.mp hf with rfl | hf
  · exact ⟨_, List.mem_cons_self, rfl, hcyclic⟩
  · exact ⟨f, List.mem_cons_of_mem _ hf, rfl, hcyclic⟩

/-- What is known of a cell after the one on top of the stack was finished. -/
theorem tracks_finish (h : Running env w₀ D s) (htracks : Tracks env unfinished p s) {cell : Position}
    {cyclic : Bool} {rest : List Frame} (hs : s.stack = ⟨cell, [], cyclic⟩ :: rest) :
    Tracks env unfinished p (popped env s ⟨cell, [], cyclic⟩ rest) := by
  cases htracks with
  | opened upper awaited below hsplit ahead past =>
    rw [hs] at hsplit
    cases upper with
    | nil =>
      obtain ⟨htop, rfl⟩ := List.cons_eq_cons.mp hsplit
      cases htop
      have hnot : ¬env.graph.CycleWithin unfinished p :=
        not_cycleWithin_of_opened (h.top_dirty hs)
          (fun z hreads hz => (ahead _ List.mem_cons_self z hreads hz).elim List.not_mem_nil List.not_mem_nil)
          fun y hy hyd z hreads hz => List.not_mem_nil (past y hy hyd z hreads hz)
      refine Tracks.done List.mem_cons_self ⟨fun hc => ?_, fun hc => absurd hc hnot⟩
      exact absurd rfl (h.ne_top hs (h.circular_mem p hc))
    | cons top upper =>
      obtain ⟨htop, rfl⟩ := List.cons_eq_cons.mp hsplit
      subst htop
      -- The finished cell no longer counts among those above.
      have hshrink : ∀ z ∈ s.dirty.erase cell, z ∈ cell :: upper.map Frame.cell → z ∈ upper.map Frame.cell :=
        fun z hz hm => (List.mem_cons.mp hm).resolve_left ((mem_erase_iff _ _ _).mp hz).1
      refine Tracks.opened upper awaited below rfl (fun f hf z hreads hz => ?_) fun y hy hyd z hreads hz => ?_
      · have hold := ahead f (List.mem_cons_of_mem _ hf) z hreads ((mem_erase_iff _ _ _).mp hz).2
        exact hold.imp_right (hshrink z hz)
      · obtain ⟨-, hdirty⟩ := (mem_erase_iff _ _ _).mp hz
        apply hshrink z hz
        by_cases hyc : y = cell
        · subst hyc
          exact (ahead _ List.mem_cons_self z hreads hdirty).resolve_left List.not_mem_nil
        · exact past y hy (fun hm => hyd ((mem_erase_iff _ _ _).mpr ⟨hyc, hm⟩)) z hreads hdirty
  | caught f hf hfcell hcyclic hcycle =>
    rw [hs] at hf
    rcases List.mem_cons.mp hf with rfl | hf
    · subst hfcell
      exact Tracks.done List.mem_cons_self
        ⟨fun _ => hcycle, fun _ => (mem_circular_popped cell).mpr (Or.inl ⟨hcyclic, rfl⟩)⟩
    · exact Tracks.caught f hf hfcell hcyclic hcycle
  | done hcomputed hcircular =>
    refine Tracks.done (List.mem_cons_of_mem _ hcomputed) (Iff.trans ?_ hcircular)
    rw [mem_circular_popped]
    exact or_iff_right fun hnew => h.ne_top hs hcomputed hnew.2

section Advance

variable {cell next : Position} {awaited : List Position} {cyclic : Bool} {rest : List Frame}
  (htracks : Tracks env unfinished p s) (hs : s.stack = ⟨cell, next :: awaited, cyclic⟩ :: rest)
include htracks hs

/-- What is known of a cell after the next awaited cell was taken up. -/
theorem tracks_takeUp {c : Cell} (hc : s.workbook.cell? next = some c) :
    Tracks env unfinished p (begin env { s with stack := ⟨cell, awaited, cyclic⟩ :: rest } next) := by
  rw [begin_eq (s := { s with stack := ⟨cell, awaited, cyclic⟩ :: rest }) hc]
  cases htracks with
  | opened upper waits below hsplit ahead past =>
    rw [hs] at hsplit
    obtain ⟨upper', waits', hsplit', hcells, ahead'⟩ := opened_advance hsplit ahead
    refine Tracks.opened (⟨next, awaitedBy env s.dirty next, false⟩ :: upper') waits' below
      (congrArg _ hsplit') (fun f hf z hreads hz => ?_) fun y hy hyd z hreads hz => ?_
    · rw [List.map_cons, hcells, List.mem_cons]
      rcases List.mem_cons.mp hf with rfl | hf
      · exact Or.inl ((mem_awaitedBy env s.dirty next z).mpr ⟨hreads, hz⟩)
      · exact (ahead' f hf z hreads hz).imp_right Or.symm
    · rw [List.map_cons, hcells]
      exact List.mem_cons_of_mem _ (past y hy hyd z hreads hz)
  | caught f hf hfcell hcyclic hcycle =>
    obtain ⟨g, hg, hgcell, hgcyclic⟩ := marked_advance hs hf hcyclic
    exact Tracks.caught g (List.mem_cons_of_mem _ hg) (hgcell.trans hfcell) hgcyclic hcycle
  | done hcomputed hcircular => exact Tracks.done hcomputed hcircular

/-- What is known of a cell after the cells down to the next awaited one were marked. -/
theorem tracks_mark (h : Running env w₀ D s) (hdirty : ∀ q ∈ s.dirty, q ∈ unfinished)
    (hmem : next ∈ s.stacked) :
    Tracks env unfinished p { s with stack := markCycle next (⟨cell, awaited, cyclic⟩ :: rest) } := by
  cases htracks with
  | opened upper waits below hsplit ahead past =>
    have hwhole := hsplit
    rw [hs] at hsplit
    obtain ⟨upper', waits', hsplit', hcells, ahead'⟩ := opened_advance hsplit ahead
    by_cases habove : next ∈ upper.map Frame.cell
    · have hmark : markCycle next (⟨cell, awaited, cyclic⟩ :: rest) =
          markCycle next upper' ++ ⟨p, waits', false⟩ :: below := by
        rw [hsplit', markCycle_append (hcells ▸ habove)]
      have hcells' : (markCycle next upper').map Frame.cell = upper.map Frame.cell :=
        (map_cell_markCycle _ _).trans hcells
      refine Tracks.opened (markCycle next upper') waits' below hmark ?_ (by rwa [hcells'])
      rw [hcells']
      refine forall_mem_markCycle (P := fun cell awaited => ∀ z, env.graph.Reads cell z → z ∈ s.dirty →
        z ∈ awaited ∨ z ∈ upper.map Frame.cell) fun f hf z hreads hz => ?_
      refine (ahead' f hf z hreads hz).imp_right fun hz => hz.elim id ?_
      rintro rfl
      exact habove
    · -- The cycle that is closed here goes through the cell.
      obtain ⟨g, hg, hgcell, hgcyclic⟩ := marked_of_not_above below ⟨p, waits', false⟩ (hcells ▸ habove)
      rw [← hsplit'] at hg
      refine Tracks.caught g hg hgcell hgcyclic ?_
      refine cycleWithin_of_stack h.toValid hdirty hs hwhole (h.reads_next hs) ?_
      unfold stacked at hmem
      rw [hwhole, List.map_append] at hmem
      exact (List.mem_append.mp hmem).resolve_left habove
  | caught f hf hfcell hcyclic hcycle =>
    obtain ⟨g, hg, hgcell, hgcyclic⟩ := marked_advance hs hf hcyclic
    obtain ⟨g', hg', hgcell', hgcyclic'⟩ := marked_of_marked (p := next) hg hgcyclic
    exact Tracks.caught g' hg' ((hgcell'.trans hgcell).trans hfcell) hgcyclic' hcycle
  | done hcomputed hcircular => exact Tracks.done hcomputed hcircular

/-- What is known of a cell after an awaited cell that is finished was dropped. -/
theorem tracks_drop (hclean : next ∉ s.dirty) :
    Tracks env unfinished p { s with stack := ⟨cell, awaited, cyclic⟩ :: rest } := by
  cases htracks with
  | opened upper waits below hsplit ahead past =>
    rw [hs] at hsplit
    obtain ⟨upper', waits', hsplit', hcells, ahead'⟩ := opened_advance hsplit ahead
    refine Tracks.opened upper' waits' below hsplit' (fun f hf z hreads hz => ?_) (by rwa [hcells])
    rw [hcells]
    refine (ahead' f hf z hreads hz).imp_right fun ha => ha.resolve_right ?_
    rintro rfl
    exact hclean hz
  | caught f hf hfcell hcyclic hcycle =>
    obtain ⟨g, hg, hgcell, hgcyclic⟩ := marked_advance hs hf hcyclic
    exact Tracks.caught g hg (hgcell.trans hfcell) hgcyclic hcycle
  | done hcomputed hcircular => exact Tracks.done hcomputed hcircular

end Advance

/-- **A step keeps what is known of a cell.** -/
theorem tracks_move (h : Running env w₀ D s) (hground : Ground env w₀ D)
    (hdirty : ∀ q ∈ s.dirty, q ∈ unfinished) (htracks : Tracks env unfinished p s)
    (hmove : Move env s t) : Tracks env unfinished p t := by
  cases hmove with
  | finish hs => exact tracks_finish h htracks hs
  | takeUp hs hnext _ =>
    obtain ⟨c, hc⟩ := h.stored hground hnext
    exact tracks_takeUp htracks hs hc
  | mark hs _ hmem => exact tracks_mark htracks hs h hdirty hmem
  | drop hs hclean => exact tracks_drop htracks hs hclean

theorem tracks_next (h : Sound env w₀ D s) (hground : Ground env w₀ D)
    (hdirty : ∀ q ∈ s.dirty, q ∈ unfinished) (htracks : Tracks env unfinished p s)
    (hnext : Next env s t) : Tracks env unfinished p t := by
  cases hnext with
  | step hstep =>
    have hrunning := h.running_of_step hstep
    exact tracks_move hrunning hground hdirty htracks (hrunning.move hstep)
  | @takeUp q hs hq =>
    obtain ⟨c, hc⟩ := h.valid.stored hground hq
    rw [begin_eq (s := { s with waiting := s.dirty }) hc]
    cases htracks with
    | opened upper awaited below hsplit =>
      rw [hs] at hsplit
      exact absurd hsplit.symm (by simp)
    | caught f hf =>
      rw [hs] at hf
      exact absurd hf List.not_mem_nil
    | done hcomputed hcircular => exact Tracks.done hcomputed hcircular

theorem tracks_of_leads (h : Sound env w₀ D s) (hground : Ground env w₀ D)
    (hdirty : ∀ q ∈ s.dirty, q ∈ unfinished) (htracks : Tracks env unfinished p s)
    (hleads : Leads env s t) : Tracks env unfinished p t := by
  induction hleads with
  | refl => exact htracks
  | tail hway hnext ih =>
    refine tracks_next (sound_of_leads h hground hway) hground (fun q hq => ?_) ih hnext
    exact hdirty q (dirty_of_leads h hground hway hq)

/-! ### The moment a cell is taken up -/

/-- The next state of a pass has a cell on its stack that was not there before. -/
structure TakesUp (env : Surroundings) (s t : Pass) (p : Position) : Prop where
  next : Next env s t
  before : p ∉ s.stacked
  after : p ∈ t.stacked

/-- The invariant of a cell begins when it is taken up, with the cells that are dirty then. -/
theorem tracks_of_takesUp (h : Sound env w₀ D s) (hground : Ground env w₀ D) (htakes : TakesUp env s t p) :
    Tracks env s.dirty p t ∧ t.dirty = s.dirty := by
  obtain ⟨hnext, hbefore, hafter⟩ := htakes
  cases hnext with
  | step hstep =>
    have hrunning := h.running_of_step hstep
    cases hrunning.move hstep with
    | finish hs =>
      rw [stacked_of_stack hs] at hbefore
      exact absurd (List.mem_cons_of_mem _ hafter) hbefore
    | @takeUp cell next awaited cyclic below hs hdirty hnot =>
      obtain ⟨c, hc⟩ := h.valid.stored hground hdirty
      rw [begin_eq (s := { s with stack := ⟨cell, awaited, cyclic⟩ :: below }) hc] at hafter ⊢
      rw [stacked_of_stack hs] at hbefore
      obtain rfl : p = next := (List.mem_cons.mp hafter).resolve_right hbefore
      refine ⟨Tracks.opened [] _ _ rfl (fun f hf z hreads hz => ?_) fun y hy hyd => absurd hy hyd, rfl⟩
      obtain rfl := List.mem_singleton.mp hf
      exact Or.inl ((mem_awaitedBy env s.dirty p z).mpr ⟨hreads, hz⟩)
    | mark hs hdirty hmem =>
      unfold stacked at hafter
      rw [map_cell_markCycle] at hafter
      rw [stacked_of_stack hs] at hbefore
      exact absurd hafter hbefore
    | drop hs hclean =>
      rw [stacked_of_stack hs] at hbefore
      exact absurd hafter hbefore
  | @takeUp q hs hq =>
    obtain ⟨c, hc⟩ := h.valid.stored hground hq
    rw [begin_eq (s := { s with waiting := s.dirty }) hc] at hafter ⊢
    obtain rfl : p = q := (List.mem_cons.mp hafter).resolve_right hbefore
    refine ⟨Tracks.opened [] _ _ rfl (fun f hf z hreads hz => ?_) fun y hy hyd => absurd hy hyd, rfl⟩
    obtain rfl := List.mem_singleton.mp hf
    exact Or.inl ((mem_awaitedBy env s.dirty p z).mpr ⟨hreads, hz⟩)

/-- A cell that is new among the computed ones was on the stack. -/
theorem stacked_of_computed (h : Sound env w₀ D s) (hground : Ground env w₀ D) (hnext : Next env s t)
    (hp : p ∈ t.computed) : p ∈ s.computed ∨ p ∈ s.stacked := by
  cases turn_next h hground hnext with
  | push q hnew hstacked hcomputed hdirty => exact Or.inl (hcomputed ▸ hp)
  | pop q hstacked hcomputed hdirty =>
    rw [hstacked]
    rcases List.mem_cons.mp (hcomputed ▸ hp) with rfl | hp
    · exact Or.inr List.mem_cons_self
    · exact Or.inl hp
  | keep hstacked hcomputed hdirty => exact Or.inl (hcomputed ▸ hp)

/-- Every cell on the stack and every computed cell was taken up at some moment. -/
theorem exists_takesUp (h : Sound env w₀ D s) (hground : Ground env w₀ D) (hs : s.stack = [])
    (hc : s.computed = []) (hleads : Leads env s t) (hp : p ∈ t.stacked ∨ p ∈ t.computed) :
    ∃ u v, Leads env s u ∧ TakesUp env u v p ∧ Leads env v t := by
  induction hleads with
  | refl =>
    rw [stacked_eq_nil hs, hc] at hp
    rcases hp with hp | hp <;> exact absurd hp List.not_mem_nil
  | @tail u t hway hnext ih =>
    have hearlier : p ∈ u.stacked ∨ p ∈ u.computed →
        ∃ u' v, Leads env s u' ∧ TakesUp env u' v p ∧ Leads env v t := by
      intro hu
      obtain ⟨u', v, hbefore, htakes, hafter⟩ := ih hu
      exact ⟨u', v, hbefore, htakes, hafter.tail hnext⟩
    rcases hp with hp | hp
    · by_cases hu : p ∈ u.stacked
      · exact hearlier (Or.inl hu)
      · exact ⟨u, t, hway, ⟨hnext, hu, hp⟩, ReflTransGen.refl⟩
    · exact hearlier (stacked_of_computed (sound_of_leads h hground hway) hground hnext hp).symm

/-- **Which cells become circular errors.** A computed cell became one exactly if it lies on a cycle of
cells that were all unfinished when it was taken up. -/
theorem circular_iff_cycleWithin (h : Sound env w₀ D s) (hground : Ground env w₀ D) (hs : s.stack = [])
    (hc : s.computed = []) (hleads : Leads env s t) (ht : t.stack = []) (hp : p ∈ t.computed) :
    ∃ u v, Leads env s u ∧ TakesUp env u v p ∧ Leads env v t ∧
      (p ∈ t.circular ↔ env.graph.CycleWithin u.dirty p) := by
  obtain ⟨u, v, hbefore, htakes, hafter⟩ := exists_takesUp h hground hs hc hleads (Or.inr hp)
  refine ⟨u, v, hbefore, htakes, hafter, ?_⟩
  have hu := sound_of_leads h hground hbefore
  obtain ⟨htracks, hdirty⟩ := tracks_of_takesUp hu hground htakes
  have hend := tracks_of_leads (sound_next hu hground htakes.next) hground
    (fun q hq => hdirty ▸ hq) htracks hafter
  cases hend with
  | opened upper awaited below hsplit =>
    rw [ht] at hsplit
    exact absurd hsplit.symm (by simp)
  | caught f hf =>
    rw [ht] at hf
    exact absurd hf List.not_mem_nil
  | done _ hcircular => exact hcircular

end Pass

end Spreadsheet
