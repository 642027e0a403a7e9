import Spreadsheet.Proofs.Consistency
import Spreadsheet.Proofs.Evaluating

/-!
# Settling: what is known of the values that no pass has to compute

A formula is stale (`Engine.Stale`) if it is dirty or reads a dirty cell, directly or through others. Of
all other formulas three things are known between any two calls:

* `Engine.IsSettled` — the value is an error that needs no evaluation, a circular error on a cycle, or
  what the formula evaluates to;
* `Engine.Caught` — on every cycle of them there is a circular error;
* `Engine.RingsCaught` — on a cycle that shares no cell with another one, all of them are.

The main results are `caught_of_change`, `ringsCaught_of_change` and `settled_of_change`: an edit keeps
all of it. What is not stale
after an edit was not stale before it (`not_stale_of_alike`), it reads what it read, and all of that has
the values it had.
-/

namespace Spreadsheet

open DependencyGraph Relation

/-- The value is an error of a kind. -/
def Value.IsErrorOf (k : ErrorKind) (v : Value) : Prop := ∃ e, v = .error e ∧ e.kind = k

/-- The kind of a value that is an error. -/
def Value.errorKind? : Value → Option ErrorKind
  | .error e => some e.kind
  | _ => none

theorem Value.errorKind?_eq_some {k : ErrorKind} {v : Value} : v.errorKind? = some k ↔ v.IsErrorOf k := by
  unfold Value.IsErrorOf
  cases v <;> simp [Value.errorKind?]

theorem Value.IsErrorOf.of_agrees {k : ErrorKind} {v w : Value} (h : v.IsErrorOf k) (hw : v.Agrees w) :
    w.IsErrorOf k := by
  obtain ⟨e, rfl, hk⟩ := h
  obtain ⟨f, rfl⟩ := Value.isError_eq_true (hw.isError_eq ▸ rfl : w.isError = true)
  exact ⟨f, rfl, by rw [← hk]; exact Eq.symm hw⟩

/-- The same constant, or the same formula with link errors that count as the same. -/
def CellContent.Matches (E : ErrorValue.Likeness) : CellContent → CellContent → Prop
  | .constant v, .constant w => v = w
  | .formula f, .formula g => f.text = g.text ∧ f.parsed = g.parsed ∧ Option.Rel E.r f.linkError g.linkError
  | _, _ => False

namespace CellContent

variable {E : ErrorValue.Likeness}

theorem Matches.refl (c : CellContent) : c.Matches E c := by
  cases c with
  | constant v => rfl
  | formula f =>
    refine ⟨rfl, rfl, ?_⟩
    cases f.linkError with
    | none => exact .none
    | some e => exact .some (E.iseqv.refl e)

/-- What matches is the same constant, or two formulas. -/
theorem Matches.cases {c d : CellContent} (h : c.Matches E d) :
    (∃ v, c = .constant v ∧ d = .constant v) ∨ ∃ f g, c = .formula f ∧ d = .formula g ∧
      f.parsed = g.parsed ∧ Option.Rel E.r f.linkError g.linkError := by
  cases c with
  | constant v =>
    cases d with
    | constant w => exact Or.inl ⟨v, rfl, congrArg _ (Eq.symm h)⟩
    | formula g => exact h.elim
  | formula f =>
    cases d with
    | constant w => exact h.elim
    | formula g => exact Or.inr ⟨f, g, rfl, rfl, h.2⟩

end CellContent

theorem exists_of_rel_some {α β : Type} {r : α → β → Prop} {a : α} {o : Option β} (h : Option.Rel r (some a) o) :
    ∃ b, o = some b ∧ r a b := by
  cases h with
  | some hab => exact ⟨_, rfl, hab⟩

theorem eq_none_of_rel_none {α β : Type} {r : α → β → Prop} {o : Option β} (h : Option.Rel r none o) :
    o = none := by
  cases h
  rfl

/-- Formulas that match have errors without evaluation that count as the same. -/
theorem Formula.staticError?_matches {E : ErrorValue.Likeness} {f g : Formula} (hparsed : f.parsed = g.parsed)
    (hlink : Option.Rel E.r f.linkError g.linkError) : Option.Rel E.r f.staticError? g.staticError? := by
  unfold Formula.staticError?
  rw [hparsed]
  split
  · exact .some (E.iseqv.refl _)
  · exact hlink

/-- Errors are of the same kind if their kinds are. -/
theorem ErrorValue.rel_sameKind {o o' : Option ErrorValue} :
    Option.Rel ErrorValue.sameKind.r o o' ↔ o.map ErrorValue.kind = o'.map ErrorValue.kind := by
  cases o with
  | none =>
    cases o' with
    | none => exact iff_of_true .none rfl
    | some e' => exact iff_of_false nofun nofun
  | some e =>
    cases o' with
    | none => exact iff_of_false nofun nofun
    | some e' => exact ⟨fun | .some h => congrArg some h, fun h => .some (Option.some.inj h)⟩

/-- The kind of the error that a cell has without evaluation: that of the text of its formula, or that of
its references. -/
def Cell.staticKind? (c : Cell) : Option ErrorKind :=
  (c.formula?.bind Formula.staticError?).map ErrorValue.kind

namespace Workbook

/-- The kind of error at a position that needs no evaluation. -/
def staticKind? (w : Workbook) (p : Position) : Option ErrorKind := (w.cell? p).bind Cell.staticKind?

section Held

variable {w w' : Workbook} {p p' : Position}

/-- Cells that are alike up to marks and link errors, with link errors of the same kind, hold the same up to
errors of the same kind. -/
theorem rel_content?_of_core (hcore : w.core? p = w'.core? p') (hlink : w.linkKind? p = w'.linkKind? p') :
    Option.Rel (CellContent.Matches ErrorValue.sameKind) (w.content? p) (w'.content? p') := by
  unfold core? at hcore
  unfold linkKind? at hlink
  unfold content?
  cases hc : w.cell? p with
  | none =>
    rw [hc] at hcore
    cases hc' : w'.cell? p' with
    | none => exact .none
    | some c' => simp [hc'] at hcore
  | some c =>
    rw [hc] at hcore hlink
    cases hc' : w'.cell? p' with
    | none => simp [hc'] at hcore
    | some c' =>
      rw [hc'] at hcore hlink
      have hcontent := congrArg Cell.content (Option.some.inj hcore)
      obtain ⟨content, value, flags⟩ := c
      obtain ⟨content', value', flags'⟩ := c'
      refine .some ?_
      cases content with
      | constant v =>
        cases content' with
        | constant v' => exact CellContent.constant.inj hcontent
        | formula f' => cases hcontent
      | formula f =>
        cases content' with
        | constant v' => cases hcontent
        | formula f' =>
          simp only [Cell.core, Cell.unlinked, Cell.setLinkError, Cell.modifyFormula,
            CellContent.formula.injEq, Formula.mk.injEq] at hcontent
          exact ⟨hcontent.1, hcontent.2.1, ErrorValue.rel_sameKind.mpr hlink⟩

/-- The error without evaluation comes from what the cell holds and from its link error. -/
theorem staticKind?_congr (hcore : w.core? p = w'.core? p') (hlink : w.linkKind? p = w'.linkKind? p') :
    w.staticKind? p = w'.staticKind? p' := by
  have hcontent := rel_content?_of_core hcore hlink
  unfold content? at hcontent
  unfold staticKind?
  cases hc : w.cell? p with
  | none =>
    rw [hc] at hcontent
    rw [Option.map_eq_none_iff.mp (eq_none_of_rel_none hcontent)]
  | some c =>
    rw [hc] at hcontent
    obtain ⟨_, hmap, hmatches⟩ := exists_of_rel_some hcontent
    obtain ⟨c', hc', rfl⟩ := Option.map_eq_some_iff.mp hmap
    rw [hc', Option.bind_some, Option.bind_some]
    rcases hmatches.cases with ⟨v, hv, hv'⟩ | ⟨f, f', hf, hf', hparsed, hrel⟩
    · unfold Cell.staticKind? Cell.formula?
      rw [hv, hv']
    · unfold Cell.staticKind? Cell.formula?
      rw [hf, hf']
      exact ErrorValue.rel_sameKind.mp (Formula.staticError?_matches hparsed hrel)

end Held

section Stored

variable {w : Workbook} {p : Position} {c : Cell} {f : Formula}

theorem tree?_of_cell {x : Expr} (hc : w.cell? p = some c) (hf : c.content = .formula f)
    (hx : f.parsed = some (.ok x)) : w.tree? p = some x := by
  unfold tree?
  rw [hc]
  exact Cell.tree?_eq_some.mpr ⟨f, hf, hx⟩

theorem linkKind?_of_cell (hc : w.cell? p = some c) (hf : c.content = .formula f) :
    w.linkKind? p = f.linkError.map ErrorValue.kind := by
  unfold linkKind?
  rw [hc]
  obtain ⟨content, value, flags⟩ := c
  cases hf
  rfl

theorem staticKind?_of_cell (hc : w.cell? p = some c) (hf : c.content = .formula f) :
    w.staticKind? p = f.staticError?.map ErrorValue.kind := by
  unfold staticKind?
  rw [hc]
  obtain ⟨content, value, flags⟩ := c
  cases hf
  rfl

end Stored

end Workbook

namespace Engine

/-- What formulas read in an engine. -/
def context (e : Engine) : EvaluationContext := e.workbook.context e.names e.settings e.library

/-- A formula is dirty, or reads a dirty cell, directly or through others. -/
def Stale (e : Engine) (p : Position) : Prop := ∃ k ∈ e.dirty, ReflTransGen e.graph.Reads p k

/-- The value at a position is what it should be: an error that needs no evaluation, a circular error on
a cycle, or what the formula evaluates to. -/
structure IsSettled (e : Engine) (p : Position) : Prop where
  static : ∀ k, e.workbook.staticKind? p = some k → (e.workbook.value p).IsErrorOf k
  evaluated : ∀ x, e.workbook.staticKind? p = none → e.workbook.tree? p = some x →
    ((e.workbook.value p).IsErrorOf .circular ∧ e.graph.OnCycle p) ∨
      (e.workbook.value p).Agrees (evaluate e.context p.sheet x)

/-- Every formula that is not stale is settled. -/
def Settled (e : Engine) : Prop := ∀ p, ¬e.Stale p → e.IsSettled p

/-- A formula reads a cell, is not stale, and does not show a circular error. -/
def OpenRead (e : Engine) (reader p : Position) : Prop :=
  e.graph.Reads reader p ∧ ¬e.Stale reader ∧ ¬(e.workbook.value reader).IsErrorOf .circular

/-- On every cycle of formulas that are not stale, one shows a circular error. -/
def Caught (e : Engine) : Prop := ∀ p, ¬TransGen e.OpenRead p p

/-- Every formula that is not stale shows a circular error if it lies on a cycle that shares no cell with
another one. -/
def RingsCaught (e : Engine) : Prop :=
  ∀ p, ¬e.Stale p → e.graph.OnRing p → (e.workbook.value p).IsErrorOf .circular

theorem stale_of_mem {e : Engine} {p : Position} (h : p ∈ e.dirty) : e.Stale p := ⟨p, h, ReflTransGen.refl⟩

/-- Where nothing is dirty, nothing is stale. -/
theorem not_stale_of_clean {e : Engine} (h : ∀ p, p ∉ e.dirty) (p : Position) : ¬e.Stale p := by
  rintro ⟨k, hk, -⟩
  exact h k hk

theorem stale_of_reads {e : Engine} {reader p : Position} (h : e.graph.Reads reader p) (hp : e.Stale p) :
    e.Stale reader := by
  obtain ⟨k, hk, hwalk⟩ := hp
  exact ⟨k, hk, hwalk.head h⟩

section Change

variable {image : Position → Option Position} {e e' : Engine}

theorem Alike.value_eq {p p' : Position} (h : Alike e p e' p') :
    e'.workbook.value p' = e.workbook.value p := Workbook.value_congr h.core_eq

theorem Alike.tree?_eq {p p' : Position} (h : Alike e p e' p') :
    e'.workbook.tree? p' = e.workbook.tree? p := Workbook.tree?_congr h.core_eq

/-- What is alike reads the same cells. -/
theorem Alike.reads_iff (he : e.Consistent) (he' : e'.Consistent) {p p' q : Position}
    (h : Alike e p e' p') : e'.graph.Reads p' q ↔ e.graph.Reads p q := by
  rw [reads_iff_wouldRead (he.linked p), reads_iff_wouldRead (he'.linked p')]
  unfold WouldRead
  rw [h.linkAt_eq]

theorem Alike.staticKind?_eq (he : e.Consistent) (he' : e'.Consistent) {p p' : Position}
    (h : Alike e p e' p') : e'.workbook.staticKind? p' = e.workbook.staticKind? p := by
  refine Workbook.staticKind?_congr h.core_eq ?_
  rw [(he.linked p).kind_eq, (he'.linked p').kind_eq, h.linkAt_eq]

/-- What a formula that is not stale after an edit reads, is not stale either, and has not changed. -/
theorem Change.still_of_not_stale (h : Change image e e') {p' q : Position} (hp' : ¬e'.Stale p')
    (hreads : e'.graph.Reads p' q) : ¬e'.Stale q ∧ image q = some q ∧ Alike e q e' q := by
  have hq : ¬e'.Stale q := fun hs => hp' (stale_of_reads hreads hs)
  exact ⟨hq, h.still p' q (fun hd => hp' (stale_of_mem hd)) hreads fun hd => hq (stale_of_mem hd)⟩

/-- **What is not stale after an edit was not stale before it.** The induction is on the way from the
formula to a dirty cell: every cell on it is in place. -/
theorem not_stale_of_alike (h : Change image e e') (he : e.Consistent) (he' : e'.Consistent)
    {p p' : Position} (ha : Alike e p e' p') (hp' : ¬e'.Stale p') : ¬e.Stale p := by
  rintro ⟨k, hk, hwalk⟩
  induction hwalk using ReflTransGen.head_induction_on generalizing p' with
  | refl => exact ha.clean hk
  | @head p q hreads _ ih =>
    have hreads' := (ha.reads_iff he he').mpr hreads
    obtain ⟨hq, -, haq⟩ := h.still_of_not_stale hp' hreads'
    exact ih haq hq

/-- What a formula that is not stale after an edit read before it, directly or through others, it reads
now, and all of that is in place. -/
theorem Change.transGen_of_before (h : Change image e e') (he : e.Consistent) (he' : e'.Consistent)
    {p p' q : Position} (ha : Alike e p e' p') (hp' : ¬e'.Stale p') (hway : TransGen e.graph.Reads p q) :
    TransGen e'.graph.Reads p' q ∧ ¬e'.Stale q ∧ image q = some q ∧ Alike e q e' q := by
  induction hway with
  | single hreads =>
    have hreads' := (ha.reads_iff he he').mpr hreads
    exact ⟨TransGen.single hreads', h.still_of_not_stale hp' hreads'⟩
  | tail _ hreads ih =>
    obtain ⟨hway', hstale, -, har⟩ := ih
    have hreads' := (har.reads_iff he he').mpr hreads
    exact ⟨hway'.tail hreads', h.still_of_not_stale hstale hreads'⟩

/-- The other way around. -/
theorem Change.transGen_of_after (h : Change image e e') (he : e.Consistent) (he' : e'.Consistent)
    {p p' q : Position} (ha : Alike e p e' p') (hp' : ¬e'.Stale p') (hway : TransGen e'.graph.Reads p' q) :
    TransGen e.graph.Reads p q ∧ ¬e'.Stale q ∧ image q = some q ∧ Alike e q e' q := by
  induction hway with
  | single hreads =>
    exact ⟨TransGen.single ((ha.reads_iff he he').mp hreads), h.still_of_not_stale hp' hreads⟩
  | tail _ hreads ih =>
    obtain ⟨hway', hstale, -, har⟩ := ih
    exact ⟨hway'.tail ((har.reads_iff he he').mp hreads), h.still_of_not_stale hstale hreads⟩

/-- A cycle through a formula that is alike and not stale is a cycle in the engine after the edit. -/
theorem onCycle_of_alike (h : Change image e e') (he : e.Consistent) (he' : e'.Consistent)
    {p p' : Position} (hp : image p = some p') (ha : Alike e p e' p') (hp' : ¬e'.Stale p')
    (hcycle : e.graph.OnCycle p) : e'.graph.OnCycle p' := by
  obtain ⟨hway, -, himage, -⟩ := h.transGen_of_before he he' ha hp' hcycle
  obtain rfl : p' = p := Option.some.inj (hp.symm.trans himage)
  exact hway

/-- **An edit keeps that every cycle is caught.** -/
theorem caught_of_change (h : Change image e e') (he : e.Consistent) (he' : e'.Consistent)
    (hcaught : e.Caught) : e'.Caught := by
  intro p hcycle
  -- Every cell on the cycle is read by another one on it, so all of them are in place.
  have hback : ∀ r q, e'.OpenRead r q → ¬e'.Stale q ∧ Alike e q e' q := by
    intro r q hrq
    obtain ⟨hq, -, ha⟩ := h.still_of_not_stale hrq.2.1 hrq.1
    exact ⟨hq, ha⟩
  have hstep : ∀ r q, Alike e r e' r → e'.OpenRead r q → e.OpenRead r q := by
    intro r q ha hrq
    refine ⟨(ha.reads_iff he he').mp hrq.1, not_stale_of_alike h he he' ha hrq.2.1, ?_⟩
    rw [← ha.value_eq]
    exact hrq.2.2
  obtain ⟨r, -, hlast⟩ := TransGen.tail'_iff.mp hcycle
  have hwalk : ∀ q, TransGen e'.OpenRead p q → TransGen e.OpenRead p q := by
    intro q hq
    induction hq with
    | single hopen => exact TransGen.single (hstep p _ (hback r p hlast).2 hopen)
    | tail hway hopen ih =>
      obtain ⟨s, -, hbefore⟩ := TransGen.tail'_iff.mp hway
      exact ih.tail (hstep _ _ (hback s _ hbefore).2 hopen)
  exact hcaught p (hwalk p hcycle)

/-- A formula that is not stale after an edit and lies on a cycle is in place: another one on the cycle
reads it. -/
theorem Change.inPlace_of_onCycle (h : Change image e e') {p : Position} (hp : ¬e'.Stale p)
    (hcycle : e'.graph.OnCycle p) : image p = some p ∧ Alike e p e' p := by
  obtain ⟨r, hpr, hrp⟩ := TransGen.tail'_iff.mp hcycle
  have hr : ¬e'.Stale r := fun ⟨k, hk, hwalk⟩ => hp ⟨k, hk, hpr.trans hwalk⟩
  exact (h.still_of_not_stale hr hrp).2

/-- A cycle that shares no cell with another one after an edit did not do so before it. -/
theorem Change.onRing_of_after (h : Change image e e') (he : e.Consistent) (he' : e'.Consistent)
    {p : Position} (hp : ¬e'.Stale p) (hring : e'.graph.OnRing p) : e.graph.OnRing p := by
  obtain ⟨-, ha⟩ := h.inPlace_of_onCycle hp hring.onCycle
  have hjoined : ∀ q, e.graph.Joined p q → e'.graph.Joined p q ∧ Alike e q e' q := by
    rintro q ⟨hpq, hqp⟩
    obtain ⟨hpq', hq, -, haq⟩ := h.transGen_of_before he he' ha hp hpq
    exact ⟨⟨hpq', (h.transGen_of_before he he' haq hq hqp).1⟩, haq⟩
  refine ⟨(h.transGen_of_after he he' ha hp hring.onCycle).1, fun r q q' hr hrq hq hrq' hq' => ?_⟩
  obtain ⟨hr', har⟩ := hjoined r hr
  exact hring.single r q q' hr' ((har.reads_iff he he').mpr hrq) (hjoined q hq).1
    ((har.reads_iff he he').mpr hrq') (hjoined q' hq').1

/-- **An edit keeps that the cycles by themselves are caught as a whole.** -/
theorem ringsCaught_of_change (h : Change image e e') (he : e.Consistent) (he' : e'.Consistent)
    (hrings : e.RingsCaught) : e'.RingsCaught := by
  intro p hp hring
  obtain ⟨-, ha⟩ := h.inPlace_of_onCycle hp hring.onCycle
  rw [ha.value_eq]
  exact hrings p (not_stale_of_alike h he he' ha hp) (h.onRing_of_after he he' hp hring)

/-- A formula without link error is not unresolved. -/
theorem resolved_of_linked {p : Position} (hp : e.LinkedAt p) (hkind : e.workbook.linkKind? p = none) :
    (e.linkAt p).unresolved = false := by
  have hk := hp.kind_eq
  rw [hkind] at hk
  cases hu : (e.linkAt p).unresolved with
  | false => rfl
  | true =>
    rw [hu] at hk
    cases hk

/-- The references of a formula without link error all mean areas, and the formula reads their cells. -/
theorem resolve_of_linked {p : Position} (hp : e.LinkedAt p) {x : Expr}
    (hx : e.workbook.tree? p = some x) (hkind : e.workbook.linkKind? p = none) :
    ∀ entry ∈ x.references, ∃ a, e.scope.resolve entry.2 p.sheet = .ok a ∧
      ∀ q, a.covers q = true → e.graph.Reads p q := by
  have hat := linkAt_of_tree hx
  have hresolved := resolved_of_linked hp hkind
  rw [hat] at hresolved
  unfold linkOf at hresolved
  cases hr : resolveAll e.scope p.sheet x.references with
  | error problem =>
    rw [hr] at hresolved
    cases hresolved
  | ok areas =>
    intro entry hentry
    obtain ⟨a, ha, hmeans⟩ := (resolveAll_eq_ok hr).1 entry hentry
    refine ⟨a, hmeans, fun q hq => (reads_iff_wouldRead hp).mpr ⟨a, ?_, hq⟩⟩
    rw [hat]
    unfold linkOf
    rw [hr]
    exact ha

/-- Two engines match on a formula without link error if its references mean the same in both, and they
match on the cells that it reads. -/
theorem matchOn_of_linked {E : ErrorValue.Likeness} {e e' : Engine} {p : Position} {x : Expr}
    (hp : e.LinkedAt p) (hx : e.workbook.tree? p = some x) (hkind : e.workbook.linkKind? p = none)
    (hlocale : e'.settings.locale = e.settings.locale) (hlibrary : e'.library = e.library)
    (hmeans : ∀ entry ∈ x.references, ∀ a, e.scope.resolve entry.2 p.sheet = .ok a →
      e'.scope.resolve entry.2 p.sheet = .ok a)
    (hmatch : ∀ q, e.graph.Reads p q → e.context.MatchAt E e'.context q) :
    e.context.MatchOn E e'.context p.sheet x.references := by
  constructor
  · exact hlocale.symm
  · show e.library.find? = e'.library.find?
    rw [hlibrary]
  · intro entry hentry
    obtain ⟨a, ha, hreads⟩ := resolve_of_linked hp hx hkind entry hentry
    exact ⟨a, ha, hmeans entry hentry a ha, fun q hq => hmatch q (hreads q hq)⟩

/-- The error without evaluation of a formula that was read is that of its references. -/
theorem staticKind?_eq_linkKind? {w : Workbook} {p : Position} {x : Expr} (hx : w.tree? p = some x) :
    w.staticKind? p = w.linkKind? p := by
  unfold Workbook.tree? at hx
  unfold Workbook.staticKind? Workbook.linkKind?
  obtain ⟨c, hc, hx⟩ := Option.bind_eq_some_iff.mp hx
  obtain ⟨f, hf, hparsed⟩ := Cell.tree?_eq_some.mp hx
  rw [hc]
  obtain ⟨content, value, flags⟩ := c
  cases hf
  show f.staticError?.map ErrorValue.kind = f.linkError.map ErrorValue.kind
  unfold Formula.staticError?
  rw [hparsed]

/-- The engines before and after an edit match on a formula that is not stale, if reading an error gives
matching errors in both. -/
theorem Change.matchOn {E : ErrorValue.Likeness} (h : Change image e e') (he : e.Consistent)
    (he' : e'.Consistent) (hroomy : e.settings.IsRoomy) {p p' : Position} (ha : Alike e p e' p')
    (hp' : ¬e'.Stale p') {x : Expr} (hx : e.workbook.tree? p = some x)
    (hstatic : e.workbook.staticKind? p = none)
    (hlabels : ∀ q, e'.graph.Reads p' q → ∀ a b, E.r a b →
      E.r (e.context.propagated a q) (e'.context.propagated b q)) :
    e.context.MatchOn E e'.context p.sheet x.references := by
  have hkind := (staticKind?_eq_linkKind? hx).symm.trans hstatic
  refine matchOn_of_linked (he.linked p) hx hkind (by rw [h.settings_eq]) h.library_eq
    (fun entry hentry a => (ha.agree x hx (resolved_of_linked (he.linked p) hkind) entry hentry a).mp)
    fun q hq => ?_
  have hreads' := (ha.reads_iff he he').mpr hq
  obtain ⟨hstale, -, haq⟩ := h.still_of_not_stale hp' hreads'
  refine ⟨?_, Value.Matches.of_eq haq.value_eq.symm, hlabels q hreads'⟩
  exact (h.seen hroomy p' q (fun hd => hp' (stale_of_mem hd)) hreads'
    fun hd => hstale (stale_of_mem hd)).symm

/-- **An edit keeps that what is not stale is settled**, on a grid with room. -/
theorem settled_of_change (h : Change image e e') (he : e.Consistent) (he' : e'.Consistent)
    (hroomy : e.settings.IsRoomy) (hsettled : e.Settled) : e'.Settled := by
  intro p' hp'
  by_cases hstored : (e'.workbook.cell? p').isSome = true
  case neg =>
    have hnone : e'.workbook.cell? p' = none := by simpa using hstored
    constructor
    · intro k hk
      unfold Workbook.staticKind? at hk
      rw [hnone] at hk
      cases hk
    · intro x _ hx
      unfold Workbook.tree? at hx
      rw [hnone] at hx
      cases hx
  obtain ⟨p, himage, ha⟩ := h.source p' hstored fun hd => hp' (stale_of_mem hd)
  have hp := hsettled p (not_stale_of_alike h he he' ha hp')
  constructor
  · intro k hk
    rw [ha.value_eq]
    apply hp.static
    rw [← hk, ha.staticKind?_eq he he']
  · intro x hstatic' hx'
    have hstatic : e.workbook.staticKind? p = none := by rw [← hstatic', ha.staticKind?_eq he he']
    have hx : e.workbook.tree? p = some x := by rw [← hx', ha.tree?_eq]
    rw [ha.value_eq]
    rcases hp.evaluated x hstatic hx with ⟨hcircular, hcycle⟩ | hagrees
    · exact Or.inl ⟨hcircular, onCycle_of_alike h he he' himage ha hp' hcycle⟩
    · right
      rw [ha.sheet_eq]
      refine hagrees.trans (Value.matches_sameKind.mp (evaluate_matches
        (h.matchOn he he' hroomy ha hp' hx hstatic fun q _ a b _ =>
          EvaluationContext.sameKind_propagated _ _ a b q q)))

end Change

end Engine

end Spreadsheet
