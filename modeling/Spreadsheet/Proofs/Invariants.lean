import Spreadsheet.Proofs.Marking
import Spreadsheet.Proofs.PassRuns

/-!
# Invariants: what a call keeps if its parts keep it

Calls are put together from few parts: formulas are linked again, cells are marked, and a pass marks cells,
takes them up and finishes them. What every part keeps, the whole keeps:

* `Pass.Kept.run` — a pass of any scope keeps what its parts keep (`Pass.Kept.of_seen`);
* `relinkAll_keeps`, `markDirty_keeps` — and so do the two ends of every edit;
* `perform_keeps` — a call keeps what its action keeps, since a call that is refused does nothing.

None of this asks for the invariant of the engine.
-/

namespace Spreadsheet

open Relation

namespace Pass

/-- Every part of a pass keeps a property. -/
structure Kept (env : Surroundings) (P : Pass → Prop) : Prop where
  turn : ∀ s stack waiting, P s → P { s with stack, waiting }
  mark : ∀ s p, P s → P (mark s p)
  begin : ∀ s p, P s → P (begin env s p)
  finish : ∀ s f, P s → P (finish env s f)

namespace Kept

variable {env : Surroundings} {P : Pass → Prop} {s t : Pass}

/-- What can be seen from the workbook and the changes is kept if it is where a cell is marked, taken up or
finished. -/
theorem of_seen {Q : Workbook → List Position → Prop}
    (hmark : ∀ w changed p, Q w changed → Q (w.modifyCell p Cell.markDirty) changed)
    (hbegin : ∀ w changed p, Q w changed → Q (w.modifyCell p Cell.begin) changed)
    (hfinish : ∀ s f, Q s.workbook s.changed →
      Q (Pass.finish env s f).workbook (Pass.finish env s f).changed) :
    Kept env fun s => Q s.workbook s.changed := by
  constructor
  case turn => exact fun s stack waiting hs => hs
  case mark =>
    intro s p hs
    unfold Pass.mark
    split
    · exact hmark _ _ p hs
    · exact hs
  case begin =>
    intro s p hs
    unfold Pass.begin
    split
    · exact hs
    · exact hbegin _ _ p hs
  case finish => exact hfinish

theorem step (h : Kept env P) (hs : P s) (hstep : Pass.step env s = some t) : P t := by
  unfold Pass.step at hstep
  split at hstep
  · cases hstep
  · cases hstep
    exact h.finish _ _ (h.turn s _ s.waiting hs)
  · next cell next awaited cyclic below _ =>
    have hturned := h.turn s (⟨cell, awaited, cyclic⟩ :: below) s.waiting hs
    dsimp only at hstep
    split at hstep
    · cases hstep
      exact h.begin _ _ hturned
    · split at hstep
      · cases hstep
        exact h.turn s _ s.waiting hs
      · cases hstep
        exact hturned

theorem next (h : Kept env P) (hs : P s) (hnext : Next env s t) : P t := by
  cases hnext with
  | step hstep => exact h.step hs hstep
  | takeUp _ _ => exact h.begin _ _ (h.turn s s.stack _ hs)

theorem leads (h : Kept env P) (hs : P s) (hleads : Leads env s t) : P t := by
  induction hleads with
  | refl => exact hs
  | tail _ hnext ih => exact h.next ih hnext

theorem compute (h : Kept env P) (hs : P s) (p : Position) : P (Pass.compute env s p) := by
  unfold Pass.compute
  split
  · exact h.leads (h.begin _ p (h.turn s s.stack _ hs)) (leads_settle env _).1
  · exact hs

/-- **A pass of any scope keeps what its parts keep.** -/
theorem run (h : Kept env P) (hs : P s) (scope : PassScope) : P (Pass.run env s scope) := by
  have hmarked : ∀ ps : List Position, P (ps.foldl Pass.mark s) := fun ps =>
    foldl_keeps (P := P) (fun t p _ ht => h.mark t p ht) hs
  have hcomputed : ∀ t, P t → P (t.inOrder.foldl (Pass.compute env) t) := fun t ht =>
    foldl_keeps (P := P) (fun t p _ ht => h.compute ht p) ht
  cases scope with
  | cell p =>
    have htargets := hmarked ((env.graph.cycleMembers s.workbook p).insert p).toList
    rw [← Std.TreeSet.foldl_eq_foldl_toList] at htargets
    exact h.compute htargets p
  | dirty => exact hcomputed s hs
  | full => exact hcomputed _ (hmarked _)

end Kept

end Pass

namespace Engine

variable {P : Engine → Prop} {e : Engine}

theorem relinkAll_keeps (h : ∀ e p, P e → P (e.relink p)) (he : P e) (ps : List Position) :
    P (e.relinkAll ps) :=
  foldl_keeps (fun e p _ he => h e p he) he

theorem markDirty_keeps (h : ∀ e p, P e → P (e.markCell p)) (he : P e) (seeds : List Position) :
    P (e.markDirty seeds) :=
  foldl_keeps (fun e p _ he => h e p he) he

/-- A call keeps what its action keeps, whenever the arguments are accepted. -/
theorem perform_keeps {α β : Type} {checked : Except EngineError α} {act : α → Engine × β} (he : P e)
    (h : ∀ x, checked = .ok x → P (act x).1) : P (e.perform checked act).engine := by
  cases hc : checked with
  | error problem => exact he
  | ok x => exact h x hc

theorem afterEdit_of_manual (h : e.settings.autoRecalculate = false) : e.afterEdit = e := by
  unfold afterEdit
  rw [h]
  rfl

/-- The two ends of an edit, when no pass follows. -/
theorem relinked_of_manual (h : e.settings.autoRecalculate = false) (ps seeds : List Position) :
    ((e.relinkAll ps).markDirty seeds).afterEdit = (e.relinkAll ps).markDirty seeds := by
  have hsettings : ((e.relinkAll ps).markDirty seeds).settings = e.settings := by
    refine markDirty_keeps (P := fun e' => e'.settings = e.settings)
      (fun e' p he' => (markedBy_markCell e' p).settings_eq.trans he') ?_ seeds
    exact (upToLinks_relinkAll e ps).settings_eq
  exact afterEdit_of_manual (by rw [hsettings]; exact h)

end Engine

end Spreadsheet
