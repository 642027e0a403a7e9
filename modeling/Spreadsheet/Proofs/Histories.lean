import Spreadsheet.Proofs.Invariants
import Spreadsheet.Proofs.Sheets
import Spreadsheet.Proofs.Shifting
import Spreadsheet.Proofs.Writing

/-!
# Histories: what holds of every reachable engine

Each call was dealt with in the module about it; here they come together.

* `Reachable.consistent` — every reachable engine satisfies the invariant;
* `Reachable.caught` — on every cycle that is not stale there is a circular error;
* `Reachable.ringsCaught` — a cycle that shares no cell with another one has nothing else;
* `settled_run`, `dueOffCycles_run` — on a grid with room, what is not stale is settled, and off all cycles
  due, as long as no pass was made over a single cell. Such a pass leaves the readers of its cells alone.
-/

namespace Spreadsheet

open Grid DependencyGraph Relation

/-- A call that makes no pass over a single cell. -/
def Call.IsWhole : Call → Prop
  | .recalculate (.cell _) => False
  | .evaluateCell _ _ => False
  | _ => True

/-- A call that makes a recalculation of its own, not one that follows an edit. -/
def Call.Recalculates : Call → Prop
  | .recalculate _ => True
  | .evaluateCell _ _ => True
  | _ => False

/-- A call that gives a sheet another name. -/
def Call.Renames : Call → SheetId → Prop
  | .renameSheet sheet _, id => id = sheet
  | _, _ => False

/-- A call that rewrites formulas all over the workbook. -/
def Call.Rewrites : Call → Prop
  | .renameSheet _ _ => True
  | .editLines _ _ => True
  | _ => False

theorem Settings.IsRoomy.isCountable {s : Settings} (h : s.IsRoomy) : s.IsCountable :=
  ⟨Nat.le_of_lt h.1, Nat.le_of_lt h.2⟩

namespace Engine

variable {E : ErrorValue.Likeness} {renamed : SheetId → Prop} {e : Engine}

/-! ### Displays and listeners -/

/-- A change that leaves graph, names and sets alone, and all of every cell but its other marks, is an
edit of nothing. -/
theorem edit_nothing (h : e.Consistent) {w' : Workbook} (hframe : w'.SameFrame e.workbook)
    (hw : w'.WellFormed)
    (hcell : ∀ p c', w'.cell? p = some c' → ∃ c, e.workbook.cell? p = some c ∧
      (∃ displayDirty, c' = { c with flags := { c.flags with displayDirty } }))
    (hstored : ∀ p, (e.workbook.cell? p).isSome = true → (w'.cell? p).isSome = true)
    (mailbox : Option (List PassReport)) : Edit some e { e with workbook := w', mailbox } [] [] := by
  have hscope : ({ e with workbook := w', mailbox } : Engine).scope = e.scope :=
    hframe.scope_eq e.names e.settings
  have hcells : ∀ p, w'.core? p = e.workbook.core? p ∧ w'.content? p = e.workbook.content? p := by
    intro p
    unfold Workbook.core? Workbook.content?
    cases hc' : w'.cell? p with
    | some c' =>
      obtain ⟨c, hc, shown, rfl⟩ := hcell p c' hc'
      rw [hc]
      exact ⟨congrArg some (c.core_withFlags _), rfl⟩
    | none =>
      cases hc : e.workbook.cell? p with
      | none => exact ⟨rfl, rfl⟩
      | some c =>
        have hsome := hstored p (by rw [hc]; rfl)
        rw [hc'] at hsome
        cases hsome
  have horderly : ({ e with workbook := w', mailbox } : Engine).Orderly := by
    refine h.toOrderly.of_sameFrame rfl rfl hframe hw h.symmetric ?cells (fun p hp => hstored p (h.stored p hp))
      h.unread ?marked
    case cells =>
      intro p c' hc'
      obtain ⟨c, hc, shown, rfl⟩ := hcell p c' hc'
      have horderly := h.cells p c hc
      exact ⟨horderly.constant, horderly.formula, horderly.idle, horderly.error⟩
    case marked =>
      intro hroomy p c' hc' hp
      obtain ⟨c, hc, shown, rfl⟩ := hcell p c' hc'
      exact h.marked hroomy p c hc hp
  refine Edit.inPlace (fun _ => False) h rfl rfl horderly (fun p c' hc' hflag => ?_) (fun _ hp => hp.elim)
    (fun _ hp => hp.elim) (fun p _ => ?_) fun _ _ q _ _ => congrFun hframe.isObscured_eq q
  · obtain ⟨c, hc, shown, rfl⟩ := hcell p c' hc'
    exact Or.inl (h.flagged p c hc hflag)
  · exact untouched_of_scope hscope (hcells p).1 (hcells p).2 rfl Iff.rfl Iff.rfl

theorem changesTo_nothing {w' : Workbook} {mailbox : Option (List PassReport)}
    (hframe : w'.SameFrame e.workbook) (hedit : Edit some e { e with workbook := w', mailbox } [] []) :
    ChangesTo E renamed e { e with workbook := w', mailbox } := by
  have hrevised : Revised E renamed e (({ e with workbook := w', mailbox } : Engine).markDirty []) :=
    hedit.revised (fun _ hp => absurd hp List.not_mem_nil) fun id _ _ => hframe.sheetName_eq id
  rw [markDirty_nil] at hrevised
  exact hrevised.changesTo

/-- Displays that are built leave all but their marks alone. -/
theorem changesTo_buildDisplays (h : e.Consistent) : ChangesTo E renamed e e.buildDisplays.2 := by
  unfold buildDisplays
  dsimp only
  generalize (e.workbook.positions.filter _) = ps
  let built : Workbook → Prop := fun w => w.SameFrame e.workbook ∧ w.WellFormed ∧
    (∀ p c', w.cell? p = some c' → ∃ c, e.workbook.cell? p = some c ∧
      (∃ displayDirty, c' = { c with flags := { c.flags with displayDirty } })) ∧
    ∀ p, (e.workbook.cell? p).isSome = true → (w.cell? p).isSome = true
  have hbuilt : built (ps.foldl (fun w p => w.modifyCell p Cell.buildDisplay) e.workbook) := by
    refine foldl_keeps (fun w p _ hw => ?_) ⟨Workbook.SameFrame.refl _, h.wellFormed,
      fun p c hc => ⟨c, hc, c.flags.displayDirty, rfl⟩, fun _ hp => hp⟩
    obtain ⟨hframe, hwell, hcell, hstored⟩ := hw
    refine ⟨(Workbook.sameFrame_modifyCell _ _ _).trans hframe, hwell.modifySheet _ _, fun q c' hc' => ?_,
      fun q hq => ?_⟩
    · rw [Workbook.cell?_modifyCell] at hc'
      split at hc'
      · next hqp =>
        obtain ⟨c₁, hc₁, rfl⟩ := Option.map_eq_some_iff.mp hc'
        obtain ⟨c, hc, shown, rfl⟩ := hcell p c₁ hc₁
        exact ⟨c, hqp ▸ hc, false, rfl⟩
      · exact hcell q c' hc'
    · rw [Workbook.cell?_modifyCell]
      split
      · next hqp =>
        rw [Option.isSome_map, ← hqp]
        exact hstored q hq
      · exact hstored q hq
  obtain ⟨hframe, hwell, hcell, hstored⟩ := hbuilt
  exact changesTo_nothing hframe (edit_nothing h hframe hwell hcell hstored e.mailbox)

/-- What a listener has received concerns no cell. -/
theorem changesTo_mailbox (h : e.Consistent) (mailbox : Option (List PassReport)) :
    ChangesTo E renamed e { e with mailbox } :=
  changesTo_nothing (Workbook.SameFrame.refl _) (edit_nothing h (Workbook.SameFrame.refl _) h.wellFormed
    (fun _ c hc => ⟨c, hc, c.flags.displayDirty, rfl⟩) (fun _ hp => hp) mailbox)

/-! ### All calls -/

/-- **Every call that makes no recalculation of its own makes an edit**, up to the kinds of errors. If it rewrites
no formulas, nothing about errors changes at all. -/
theorem changesTo_after (h : e.Consistent) (hcount : e.settings.IsCountable) {c : Call} (hc : ¬c.Recalculates)
    (hE : E = ErrorValue.sameKind ∨ ¬c.Rewrites) : ChangesTo E c.Renames e (e.after c) := by
  cases c with
  | addSheet name =>
    rw [after_addSheet]
    exact changesTo_addSheet h name
  | removeSheet sheet => exact changesTo_removeSheet h sheet
  | renameSheet sheet name =>
    obtain rfl := hE.resolve_right fun hnot => hnot trivial
    exact changesTo_renameSheet h sheet name
  | setFormula sheet a text => exact changesTo_setFormula h sheet a text
  | setValue sheet a v => exact changesTo_setValue h sheet a v
  | clearCell sheet a => exact changesTo_clearCell h sheet a
  | loadCell sheet a saved => exact changesTo_loadCell h sheet a saved
  | defineName name sheet rect => exact changesTo_defineName h name sheet rect
  | removeName name => exact changesTo_removeName h name
  | mergeCells sheet rect => exact changesTo_mergeCells h sheet rect
  | unmergeCells sheet rect => exact changesTo_unmergeCells h sheet rect
  | editLines sheet edit =>
    obtain rfl := hE.resolve_right fun hnot => hnot trivial
    exact changesTo_applyEdit h hcount sheet edit
  | recalculate scope => exact absurd trivial hc
  | evaluateCell sheet a => exact absurd trivial hc
  | buildDisplays => exact changesTo_buildDisplays h
  | listen => exact changesTo_mailbox h _
  | unlisten => exact changesTo_mailbox h _
  | collect => exact changesTo_mailbox h _

/-- **Every call that makes no pass over a single cell keeps what is known between two calls**, up to the
kinds of errors. If it rewrites no formulas, nothing about errors changes at all. -/
theorem followsUpTo_after (h : e.Consistent) (hcount : e.settings.IsCountable) {c : Call} (hc : c.IsWhole)
    (hE : E = ErrorValue.sameKind ∨ ¬c.Rewrites) : FollowsUpTo E e (e.after c) := by
  by_cases hrecalculates : c.Recalculates
  · cases c with
    | recalculate scope =>
      refine perform_keeps (P := FollowsUpTo E e) (FollowsUpTo.refl h) fun _ _ =>
        followsUpTo_recompute h fun p hscope => ?_
      rw [hscope] at hc
      exact hc
    | evaluateCell sheet a => exact hc.elim
    | _ => exact hrecalculates.elim
  · exact (changesTo_after h hcount hrecalculates hE).follows h

/-- Every call that makes no pass over a single cell keeps what is known between two calls. -/
theorem follows_after (h : e.Consistent) (hcount : e.settings.IsCountable) {c : Call} (hc : c.IsWhole) :
    Follows e (e.after c) :=
  (followsUpTo_after h hcount hc (Or.inl rfl)).toFollows

/-- What every call keeps: the invariant, the settings, and what is known of cycles. -/
structure Keeps (e e' : Engine) : Prop where
  consistent : e'.Consistent
  settings_eq : e'.settings = e.settings
  library_eq : e'.library = e.library
  caught : e.Caught → e'.Caught
  rings : e.RingsCaught → e'.RingsCaught

theorem Follows.keeps {e' : Engine} (h : Follows e e') : Keeps e e' :=
  ⟨h.consistent, h.settings_eq, h.library_eq, h.caught, h.rings⟩

theorem keeps_recompute (h : e.Consistent) (scope : PassScope) : Keeps e (e.recompute scope).1 :=
  ⟨consistent_recompute h scope, (settings_recompute h scope).1, (settings_recompute h scope).2,
    fun hcaught => caught_recompute h hcaught scope, fun hrings => ringsCaught_recompute h hrings scope⟩

theorem keeps_perform (h : e.Consistent) {α β : Type} {checked : Except EngineError α}
    {act : α → Engine × β} (hact : ∀ x, checked = .ok x → Keeps e (act x).1) :
    Keeps e (e.perform checked act).engine := by
  cases hc : checked with
  | error problem => exact (Follows.refl h).keeps
  | ok x => exact hact x hc

/-- **Every call keeps the invariant.** -/
theorem keeps_after (h : e.Consistent) (hcount : e.settings.IsCountable) (c : Call) :
    Keeps e (e.after c) := by
  by_cases hc : c.IsWhole
  · exact (follows_after h hcount hc).keeps
  · cases c with
    | recalculate scope => exact keeps_perform h fun _ _ => keeps_recompute h scope
    | evaluateCell sheet a =>
      show Keeps e (e.evaluateCell sheet a).engine
      unfold evaluateCell
      exact keeps_perform h fun p _ => keeps_recompute h (.cell p)
    | _ => exact absurd trivial hc

/-- Any calls one after the other keep what each keeps. -/
theorem keeps_run (h : e.Consistent) (hcount : e.settings.IsCountable) (cs : List Call) :
    Keeps e (e.run cs) := by
  induction cs generalizing e with
  | nil => exact (Follows.refl h).keeps
  | cons c cs ih =>
    have hkeeps := keeps_after h hcount c
    have hrest := ih hkeeps.consistent (hkeeps.settings_eq.symm ▸ hcount)
    exact ⟨hrest.consistent, hrest.settings_eq.trans hkeeps.settings_eq,
      hrest.library_eq.trans hkeeps.library_eq, fun hcaught => hrest.caught (hkeeps.caught hcaught),
      fun hrings => hrest.rings (hkeeps.rings hrings)⟩

/-- **Every call keeps that values are due**, on a grid with room. -/
theorem due_after (h : e.Consistent) (hcount : e.settings.IsCountable) (c : Call)
    (hE : E = ErrorValue.sameKind ∨ ¬c.Rewrites) (hroomy : e.settings.IsRoomy) (hdue : e.Due E) :
    (e.after c).Due E := by
  by_cases hc : c.IsWhole
  · exact (followsUpTo_after h hcount hc hE).due hroomy hdue
  · cases c with
    | recalculate scope => exact perform_keeps hdue fun _ _ => due_recompute h hroomy hdue scope
    | evaluateCell sheet a => exact perform_keeps hdue fun p _ => due_recompute h hroomy hdue (.cell p)
    | _ => exact absurd trivial hc

/-! ### The beginning -/

section Start

variable (settings : Settings) (library : Library)

theorem cell?_start (p : Position) : (start settings library).workbook.cell? p = none := rfl

theorem consistent_start : (start settings library).Consistent := by
  have hgraph : (start settings library).graph.IsSymmetric := isSymmetric_empty
  have hempty : ∀ p : Position, p ∉ ({} : PositionSet) := fun p => Std.TreeSet.not_mem_emptyc
  constructor
  · constructor
    · exact Workbook.wellFormed_empty
    · intro key area harea
      have harea : ({} : Std.TreeMap String NamedArea)[key]? = some area := harea
      rw [Std.TreeMap.getElem?_emptyc] at harea
      cases harea
    · intro key area harea
      have harea : ({} : Std.TreeMap String NamedArea)[key]? = some area := harea
      rw [Std.TreeMap.getElem?_emptyc] at harea
      cases harea
    · exact hgraph
    · intro p c hc
      rw [cell?_start] at hc
      cases hc
    · exact fun p hp => absurd hp (hempty p)
    · exact fun p hp => absurd hp (hempty p)
    · intro _ p c hc
      rw [cell?_start] at hc
      cases hc
    · intro _ id s hs
      cases hs
  · intro p c hc
    rw [cell?_start] at hc
    cases hc
  · exact fun p => linkedAt_of_no_cell rfl (link_empty p)
  · exact fun p hp => absurd hp (hempty p)

theorem not_reads_start (reader p : Position) : ¬(start settings library).graph.Reads reader p := by
  rw [reads_iff_wouldRead ((consistent_start settings library).linked reader)]
  intro hread
  have hstored := isSome_of_wouldRead hread
  rw [cell?_start] at hstored
  cases hstored

theorem caught_start : (start settings library).Caught := by
  intro p hcycle
  obtain ⟨q, hopen, -⟩ := TransGen.head'_iff.mp hcycle
  exact not_reads_start settings library p q hopen.1

theorem ringsCaught_start : (start settings library).RingsCaught := by
  intro p _ hring
  obtain ⟨q, hreads, -⟩ := TransGen.head'_iff.mp hring.onCycle
  exact absurd hreads (not_reads_start settings library p q)

theorem settled_start : (start settings library).Settled := by
  intro p _
  exact ⟨fun k hk => (by cases hk), fun x _ hx => (by cases hx)⟩

theorem due_start : (start settings library).Due E := by
  refine fun p _ _ => ⟨fun hcycle => ?_, fun _ => Value.Matches.refl _⟩
  obtain ⟨q, hreads, -⟩ := TransGen.head'_iff.mp hcycle
  exact absurd hreads (not_reads_start settings library p q)

end Start

/-- The handle of the first sheet of an engine. -/
def firstSheet : SheetId := ⟨0, 0⟩

/-! ### All histories -/

/-- What is known of every reachable engine. -/
theorem keeps_of_reachable {library : Library} (h : Reachable library e) :
    e.library = library ∧ e.settings.IsCountable ∧ e.Consistent ∧ e.Caught ∧ e.RingsCaught := by
  induction h with
  | start settings hs =>
    exact ⟨rfl, hs, consistent_start settings library, caught_start settings library,
      ringsCaught_start settings library⟩
  | call c _ ih =>
    obtain ⟨hlibrary, hcount, hconsistent, hcaught, hrings⟩ := ih
    have hkeeps := keeps_after hconsistent hcount c
    refine ⟨hkeeps.library_eq.trans hlibrary, ?_, hkeeps.consistent, hkeeps.caught hcaught,
      hkeeps.rings hrings⟩
    rw [hkeeps.settings_eq]
    exact hcount

/-- **Every reachable engine satisfies the invariant.** -/
theorem Reachable.consistent {library : Library} (h : Reachable library e) : e.Consistent :=
  (keeps_of_reachable h).2.2.1

/-- **In every reachable engine there is a circular error on each cycle that is not stale.** -/
theorem Reachable.caught {library : Library} (h : Reachable library e) : e.Caught :=
  (keeps_of_reachable h).2.2.2.1

/-- **In every reachable engine a cycle that shares no cell with another one has circular errors only**, if
it is not stale. -/
theorem Reachable.ringsCaught {library : Library} (h : Reachable library e) : e.RingsCaught :=
  (keeps_of_reachable h).2.2.2.2

/-- Calls one after the other, none of which makes a pass over a single cell, keep what each keeps. -/
theorem followsUpTo_run (h : e.Consistent) (hcount : e.settings.IsCountable) {cs : List Call}
    (hcs : ∀ c ∈ cs, c.IsWhole) (hE : E = ErrorValue.sameKind ∨ ∀ c ∈ cs, ¬c.Rewrites) :
    FollowsUpTo E e (e.run cs) := by
  induction cs generalizing e with
  | nil => exact FollowsUpTo.refl h
  | cons c cs ih =>
    have hfollows := followsUpTo_after h hcount (hcs c List.mem_cons_self)
      (hE.imp_right fun hcs => hcs c List.mem_cons_self)
    refine hfollows.trans (ih hfollows.consistent ?_ (fun d hd => hcs d (List.mem_cons_of_mem c hd))
      (hE.imp_right fun hcs d hd => hcs d (List.mem_cons_of_mem c hd)))
    rw [hfollows.settings_eq]
    exact hcount

theorem follows_run (h : e.Consistent) (hcount : e.settings.IsCountable) {cs : List Call}
    (hcs : ∀ c ∈ cs, c.IsWhole) : Follows e (e.run cs) :=
  (followsUpTo_run h hcount hcs (Or.inl rfl)).toFollows

/-- **After calls none of which makes a pass over a single cell, what is not stale is settled**, on a grid
with room. -/
theorem settled_run {settings : Settings} (hroomy : settings.IsRoomy) (library : Library) {cs : List Call}
    (hcs : ∀ c ∈ cs, c.IsWhole) : ((start settings library).run cs).Settled :=
  (follows_run (consistent_start settings library) hroomy.isCountable hcs).settled hroomy
    (settled_start settings library)

/-- **After any calls the values are due**, up to the kinds of errors, on a grid with room; after calls that
rewrite no formulas the values are exactly the ones that are due. -/
theorem due_run {settings : Settings} (hroomy : settings.IsRoomy) (library : Library) {cs : List Call}
    (hE : E = ErrorValue.sameKind ∨ ∀ c ∈ cs, ¬c.Rewrites) : ((start settings library).run cs).Due E := by
  suffices hgen : ∀ e : Engine, e.Consistent → e.settings = settings → e.Due E → (e.run cs).Due E from
    hgen _ (consistent_start settings library) rfl (due_start settings library)
  induction cs with
  | nil => exact fun e _ _ hdue => hdue
  | cons c cs ih =>
    intro e h hsettings hdue
    have hcount : e.settings.IsCountable := hsettings ▸ hroomy.isCountable
    have hkeeps := keeps_after h hcount c
    refine ih (hE.imp_right fun hcs d hd => hcs d (List.mem_cons_of_mem c hd)) (e.after c) hkeeps.consistent
      (hkeeps.settings_eq.trans hsettings) ?_
    exact due_after h hcount c (hE.imp_right fun hcs => hcs c List.mem_cons_self) (hsettings ▸ hroomy) hdue

end Engine

end Spreadsheet
