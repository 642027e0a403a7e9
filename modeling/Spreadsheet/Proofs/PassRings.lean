import Spreadsheet.Proofs.PassCycles

/-!
# Rings: cycles that share no cell with another one

Where cycles share cells, a pass need not find all of them. Where they do not, every cell on a cycle
becomes a circular error (`Pass.circular_of_onRing`), in whatever order the cells are taken up.

The proof looks at the moment the cell is taken up. If a cell of the ring were finished by then, going
around the ring from there one would come to a cell that is on the stack below it. But between the two
stands all of the ring that joins them, the cell in question included.
-/

namespace Spreadsheet

open Relation

/-- In a chain, above every element but the first stands one that it is related to, and which leads to the
first. -/
theorem exists_above {α : Type} {R : α → α → Prop} {top : α} {rest : List α}
    (h : (top :: rest).IsChain fun upper lower => R lower upper) {r : α} (hr : r ∈ top :: rest)
    (hne : r ≠ top) : ∃ q ∈ top :: rest, R r q ∧ ReflTransGen R q top := by
  induction rest generalizing top with
  | nil => exact absurd (List.mem_singleton.mp hr) hne
  | cons next rest ih =>
    rw [List.isChain_cons_cons] at h
    rcases List.mem_cons.mp hr with rfl | hr
    · exact absurd rfl hne
    by_cases hnext : r = next
    · exact ⟨top, List.mem_cons_self, hnext ▸ h.1, ReflTransGen.refl⟩
    · obtain ⟨q, hq, hreads, hway⟩ := ih h.2 hr hnext
      exact ⟨q, List.mem_cons_of_mem top hq, hreads, hway.tail h.1⟩

/-- A way that ends among some cells stays among them, or comes to them from outside and then stays. -/
theorem stays_or_enters {R : Position → Position → Prop} (cells : PositionSet) {r p : Position}
    (hp : p ∈ cells) (h : TransGen R r p) :
    TransGen (fun a b => R a b ∧ a ∈ cells ∧ b ∈ cells) r p ∨
      ∃ y z, ReflTransGen R r y ∧ R y z ∧ y ∉ cells ∧ z ∈ cells ∧
        ReflTransGen (fun a b => R a b ∧ a ∈ cells ∧ b ∈ cells) z p := by
  induction h using TransGen.head_induction_on with
  | @single r hlast =>
    by_cases hr : r ∈ cells
    · exact Or.inl (TransGen.single ⟨hlast, hr, hp⟩)
    · exact Or.inr ⟨r, p, ReflTransGen.refl, hlast, hr, hp, ReflTransGen.refl⟩
  | @head r q hfirst _ ih =>
    rcases ih with hway | ⟨y, z, hto, hyz, hy, hz, hway⟩
    · obtain ⟨_, ⟨-, hq, -⟩, -⟩ := TransGen.head'_iff.mp hway
      by_cases hr : r ∈ cells
      · exact Or.inl (hway.head ⟨hfirst, hr, hq⟩)
      · exact Or.inr ⟨r, q, ReflTransGen.refl, hfirst, hr, hq, hway.to_reflTransGen⟩
    · exact Or.inr ⟨y, z, hto.head hfirst, hyz, hy, hz, hway⟩

namespace Pass

variable {env : Surroundings} {w₀ : Workbook} {D : PositionSet} {s t : Pass} {p y z : Position}

/-! ### What stands over a cell stays there -/

/-- One cell stands on the stack over another. -/
def StandsOver (s : Pass) (z y : Position) : Prop :=
  ∃ upper below, s.stacked = upper ++ y :: below ∧ z ∈ upper

/-- As long as `z` is not finished, `y` is on the stack, and `z` stands over it if it is on the stack. -/
def Holds (s : Pass) (z y : Position) : Prop :=
  z ∈ s.dirty → y ∈ s.stacked ∧ (z ∈ s.stacked → s.StandsOver z y)

/-- A cell on the stack that waits for another one is not finished before it. -/
theorem holds_next (h : Sound env w₀ D s) (hground : Ground env w₀ D) (hnext : Next env s t)
    (hreads : env.graph.Reads y z) (hholds : s.Holds z y) : t.Holds z y := by
  have hvalid := (sound_next h hground hnext).valid
  intro hz
  cases turn_next h hground hnext with
  | push q hnew hstacked hcomputed hdirty =>
    obtain ⟨hy, hover⟩ := hholds (hdirty ▸ hz)
    rw [hstacked]
    refine ⟨List.mem_cons_of_mem q hy, fun hzs => ?_⟩
    rcases List.mem_cons.mp hzs with rfl | hzs
    · obtain ⟨upper, below, hsplit⟩ := List.append_of_mem hy
      exact ⟨z :: upper, below, by rw [hstacked, hsplit]; rfl, List.mem_cons_self⟩
    · obtain ⟨upper, below, hsplit, hmem⟩ := hover hzs
      exact ⟨q :: upper, below, by rw [hstacked, hsplit]; rfl, List.mem_cons_of_mem q hmem⟩
  | pop q hstacked hcomputed hdirty =>
    rw [hdirty, mem_erase_iff] at hz
    obtain ⟨hne, hz⟩ := hz
    obtain ⟨hy, hover⟩ := hholds hz
    have hnodup := h.valid.nodup
    rw [hstacked] at hy hnodup
    rcases List.mem_cons.mp hy with rfl | hyt
    · -- The cell on top cannot be the one that is waiting.
      have hzt : z ∈ t.stacked :=
        (hvalid.behind y (hcomputed ▸ List.mem_cons_self) z hreads
          (hdirty ▸ (mem_erase_iff _ _ _).mpr ⟨hne, hz⟩)).1
      obtain ⟨upper, below, hsplit, hmem⟩ := hover (hstacked ▸ List.mem_cons_of_mem y hzt)
      rw [hstacked] at hsplit
      cases upper with
      | nil => exact absurd hmem List.not_mem_nil
      | cons first upper =>
        obtain ⟨-, htail⟩ := List.cons_eq_cons.mp hsplit
        refine absurd ?_ (List.nodup_cons.mp hnodup).1
        rw [htail]
        exact List.mem_append_right _ List.mem_cons_self
    · refine ⟨hyt, fun hzt => ?_⟩
      obtain ⟨upper, below, hsplit, hmem⟩ := hover (hstacked ▸ List.mem_cons_of_mem q hzt)
      rw [hstacked] at hsplit
      cases upper with
      | nil => exact absurd hmem List.not_mem_nil
      | cons first upper =>
        obtain ⟨rfl, htail⟩ := List.cons_eq_cons.mp hsplit
        exact ⟨upper, below, htail, (List.mem_cons.mp hmem).resolve_left hne⟩
  | keep hstacked hcomputed hdirty =>
    obtain ⟨hy, hover⟩ := hholds (hdirty ▸ hz)
    refine ⟨hstacked ▸ hy, fun hzt => ?_⟩
    obtain ⟨upper, below, hsplit, hmem⟩ := hover (hstacked ▸ hzt)
    exact ⟨upper, below, hstacked.trans hsplit, hmem⟩

theorem holds_of_leads (h : Sound env w₀ D s) (hground : Ground env w₀ D) (hleads : Leads env s t)
    (hreads : env.graph.Reads y z) (hholds : s.Holds z y) : t.Holds z y := by
  induction hleads with
  | refl => exact hholds
  | tail hway hnext ih => exact holds_next (sound_of_leads h hground hway) hground hnext hreads ih

/-- A cell that is taken up comes to stand on top. -/
theorem TakesUp.stacked_eq (htakes : TakesUp env s t p) (h : Sound env w₀ D s) (hground : Ground env w₀ D) :
    t.stacked = p :: s.stacked := by
  cases turn_next h hground htakes.next with
  | push q hnew hstacked hcomputed hdirty =>
    have hp := htakes.after
    rw [hstacked] at hp
    rw [hstacked, (List.mem_cons.mp hp).resolve_right htakes.before]
  | pop q hstacked hcomputed hdirty =>
    exact absurd (hstacked ▸ List.mem_cons_of_mem q htakes.after) htakes.before
  | keep hstacked hcomputed hdirty => exact absurd (hstacked ▸ htakes.after) htakes.before

/-! ### The cells of a ring -/

/-- If a cell `y` of the ring of `p` stands on top of the stack, and from another one that stands below it
the ring leads to `p` without meeting `y`, then `p` stands between them. -/
theorem mem_stacked_of_ring (h : Valid env w₀ D s) (hring : env.graph.OnRing p) {rest : List Position}
    (hstacked : s.stacked = y :: rest) (hy : TransGen env.graph.Reads y p) {cells : PositionSet}
    (hnot : y ∉ cells) {r : Position}
    (hway : ReflTransGen (fun a b => env.graph.Reads a b ∧ a ∈ cells ∧ b ∈ cells) r p)
    (hr : TransGen env.graph.Reads p r) (hmem : r ∈ s.stacked) : p ∈ s.stacked := by
  have hchain := h.chain
  rw [hstacked] at hchain
  induction hway using ReflTransGen.head_induction_on with
  | refl => exact hmem
  | @head r q hfirst hrest ih =>
    obtain ⟨hreads, hin, -⟩ := hfirst
    have hne : r ≠ y := fun heq => hnot (heq ▸ hin)
    have hqp : TransGen env.graph.Reads q p :=
      TransGen.trans_right (ReflTransGen.mono (fun _ _ hstep => hstep.1) _ _ hrest) hring.onCycle
    rw [hstacked] at hmem
    obtain ⟨q', hq', hreads', hup⟩ := exists_above hchain hmem hne
    have hq'p : TransGen env.graph.Reads q' p := TransGen.trans_right hup hy
    obtain rfl : q = q' :=
      hring.single r q q' ⟨hr, hqp.head hreads⟩ hreads ⟨hr.tail hreads, hqp⟩ hreads'
        ⟨hr.tail hreads', hq'p⟩
    exact ih (hr.tail hreads) (hstacked ▸ hq')

/-- **Every computed cell on a ring becomes a circular error**, if the whole ring is computed. -/
theorem circular_of_onRing (h : Sound env w₀ D s) (hground : Ground env w₀ D) (hs : s.stack = [])
    (hc : s.computed = []) (hleads : Leads env s t) (ht : t.stack = []) (hp : p ∈ t.computed)
    (hring : env.graph.OnRing p) (hall : ∀ q, env.graph.Joined p q → q ∈ D) : p ∈ t.circular := by
  obtain ⟨u, v, hbefore, htakes, hafter, hiff⟩ :=
    circular_iff_cycleWithin h hground hs hc hleads ht hp
  have hu := sound_of_leads h hground hbefore
  have hpu : p ∈ u.dirty := by
    rw [← (tracks_of_takesUp hu hground htakes).2]
    exact (sound_next hu hground htakes.next).valid.stacked_dirty p htakes.after
  rw [hiff]
  rcases stays_or_enters u.dirty hpu hring.onCycle with hway | ⟨y, z, hpy, hreads, hyu, hzu, hway⟩
  · exact hway
  exfalso
  -- A cell of the ring is finished already, and reads one that is not.
  have hzp : ReflTransGen env.graph.Reads z p := ReflTransGen.mono (fun _ _ hstep => hstep.1) _ _ hway
  have hyp : TransGen env.graph.Reads y p := TransGen.head' hreads hzp
  have hyD : y ∈ D := hall y ⟨TransGen.trans_left hring.onCycle hpy, hyp⟩
  have hyc : y ∈ u.computed := by
    by_contra hnot
    exact hyu ((hu.valid.dirty_iff y).mpr ⟨hyD, hnot⟩)
  obtain ⟨u', v', hbefore', htakes', hafter'⟩ := exists_takesUp h hground hs hc hbefore (Or.inr hyc)
  have hu' := sound_of_leads h hground hbefore'
  have hv' := sound_next hu' hground htakes'.next
  have hstacked := htakes'.stacked_eq hu' hground
  by_cases hz : z ∈ v'.stacked
  · -- Then the rest of the ring stands between the two, with `p` in it.
    have hpz : TransGen env.graph.Reads p z := TransGen.tail' hpy hreads
    have hpv := mem_stacked_of_ring hv'.valid hring hstacked hyp hyu hway hpz hz
    rcases (onward_of_leads hv' hground hafter').taken p hpv with hpu' | hpc
    · exact htakes.before hpu'
    · exact ((hu.valid.dirty_iff p).mp hpu).2 hpc
  · -- Then the finished cell would still have to wait for the other one.
    have hholds : v'.Holds z y := fun _ => ⟨htakes'.after, fun hzs => absurd hzs hz⟩
    obtain ⟨hys, -⟩ := holds_of_leads hv' hground hafter' hreads hholds hzu
    exact hyu (hu.valid.stacked_dirty y hys)

end Pass

end Spreadsheet
