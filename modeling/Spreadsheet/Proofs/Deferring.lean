import Spreadsheet.Proofs.Histories
import Spreadsheet.Proofs.Thinning

/-!
# Deferring: loaded formulas that are read later

A loaded formula is put on a list, and a pass begins by reading what is listed. No formula is forgotten as
long as every formula that has not been read is listed (`Engine.Defers`).

* `defers_after` — every call keeps that, but for edits of lines that strand a formula;
* `allRead_recompute` — a pass of any scope then leaves no formula unread;
* `keepsUnread_run` — so it is after all calls of which none strands a formula;
* `not_keepsUnread_stranded` — a formula that was stranded is never read again.

An edit of lines takes the formulas whose texts it replaces off the list, at the positions to which they
have moved, and moves the list only then. If a formula that has not been read stood at such a position
before, it is taken off in place of the other (`Engine.strands`).
-/

namespace Spreadsheet

open Grid DependencyGraph

/-- Whether a cell has a formula that has not been read. -/
def Cell.isUnread (c : Cell) : Bool := c.formula?.any fun f => !f.isParsed

/-- Whether a cell is unread, and whether it carries the mark for that. -/
def Cell.reading (c : Cell) : Bool × Bool := (c.isUnread, c.flags.unread)

theorem Cell.reading_unlinked (c : Cell) : c.unlinked.reading = c.reading := by
  obtain ⟨content, value, flags⟩ := c
  cases content <;> rfl

theorem Cell.reading_eq_of_unlinked {c c' : Cell} (h : c'.unlinked = c.unlinked) :
    c'.reading = c.reading := by
  rw [← c'.reading_unlinked, h, c.reading_unlinked]

theorem Cell.reading_finish (c : Cell) (v : Value) : (c.finish v).reading = c.reading := by
  unfold Cell.finish
  dsimp only
  split <;> rfl

theorem Cell.reading_buildDisplay (c : Cell) : c.buildDisplay.reading = c.reading := rfl

/-! ### Workbooks -/

namespace Workbook

/-- The unread formulas of a workbook carry their mark and lie where a property holds, and no other cell
carries the mark. -/
def UnreadWithin (w : Workbook) (listed : Position → Prop) : Prop :=
  ∀ p c, w.cell? p = some c → c.reading = (false, false) ∨ (c.reading = (true, true) ∧ listed p)

namespace UnreadWithin

variable {w w' : Workbook} {listed listed' : Position → Prop}

theorem mono (h : w.UnreadWithin listed) (hlisted : ∀ p, listed p → listed' p) :
    w.UnreadWithin listed' := by
  intro p c hc
  rcases h p c hc with hread | ⟨hunread, hp⟩
  · exact Or.inl hread
  · exact Or.inr ⟨hunread, hlisted p hp⟩

/-- Where every cell comes from one that is as unread as itself, the same formulas are unread. -/
theorem of_cells (h : w.UnreadWithin listed) (hcell : ∀ p c', w'.cell? p = some c' →
    ∃ c, w.cell? p = some c ∧ c'.reading = c.reading) : w'.UnreadWithin listed := by
  intro p c' hc'
  obtain ⟨c, hc, heq⟩ := hcell p c' hc'
  rw [heq]
  exact h p c hc

theorem modifyCell (h : w.UnreadWithin listed) (p : Position) {change : Cell → Cell}
    (hchange : ∀ c, (change c).reading = c.reading) : (w.modifyCell p change).UnreadWithin listed :=
  Workbook.every_modifyCell h p fun c _ hc => by rwa [hchange c]

theorem insertCell (h : w.UnreadWithin listed) {p : Position} {c : Cell}
    (hc : c.reading = (false, false) ∨ (c.reading = (true, true) ∧ listed p)) :
    (w.insertCell p c).UnreadWithin listed := Workbook.every_insertCell h hc

/-- A formula whose text is replaced counts as read. -/
theorem replaceFormula (h : w.UnreadWithin listed) (p : Position) (text : String)
    (parsed : Except ErrorValue Expr) :
    (w.modifyCell p fun c => c.replaceFormula text parsed).UnreadWithin fun q => q ≠ p ∧ listed q := by
  intro q c' hc'
  rw [cell?_modifyCell] at hc'
  split at hc'
  · next hq =>
    obtain ⟨⟨content, value, flags⟩, hc, rfl⟩ := Option.map_eq_some_iff.mp hc'
    cases content with
    | formula f => exact Or.inl rfl
    | constant v =>
      rcases h p _ hc with hread | ⟨hunread, -⟩
      · exact Or.inl hread
      · cases hunread
  · next hq =>
    rcases h q c' hc' with hread | ⟨hunread, hlisted⟩
    · exact Or.inl hread
    · exact Or.inr ⟨hunread, hq, hlisted⟩

/-- Displays that are built concern no formula. -/
theorem buildDisplays (h : w.UnreadWithin listed) (ps : List Position) :
    (ps.foldl (fun w p => w.modifyCell p Cell.buildDisplay) w).UnreadWithin listed :=
  foldl_keeps (P := fun w : Workbook => w.UnreadWithin listed)
    (fun _ p _ hw => hw.modifyCell p Cell.reading_buildDisplay) h

end UnreadWithin

end Workbook

namespace Engine

/-! ### The parts of a call -/

/-- Every formula that has not been read is listed, so that the next pass will read it. -/
def Defers (e : Engine) : Prop := e.workbook.UnreadWithin fun p => p ∈ e.unread

/-- Nothing is left to be read. -/
def AllRead (e : Engine) : Prop := e.workbook.UnreadWithin fun _ => False

section Parts

variable {e : Engine} {listed : Position → Prop}

theorem AllRead.defers (h : e.AllRead) : e.Defers := h.mono fun _ hp => hp.elim

theorem unreadWithin_upToLinks {e' : Engine} (h : e.workbook.UnreadWithin listed) (hup : e.UpToLinks e') :
    e'.workbook.UnreadWithin listed := by
  refine h.of_cells fun p c' hc' => ?_
  obtain ⟨c, hc, heq⟩ := hup.cell? hc'
  exact ⟨c, hc, Cell.reading_eq_of_unlinked heq⟩

theorem unreadWithin_markCell (h : e.workbook.UnreadWithin listed) (p : Position) :
    (e.markCell p).workbook.UnreadWithin listed := by
  unfold markCell
  split
  · exact h.modifyCell p fun _ => rfl
  · exact h

theorem defers_relinkAll (h : e.Defers) (ps : List Position) : (e.relinkAll ps).Defers := by
  have hup := upToLinks_relinkAll e ps
  unfold Defers
  rw [hup.unread_eq]
  exact unreadWithin_upToLinks h hup

theorem defers_markDirty (h : e.Defers) (seeds : List Position) : (e.markDirty seeds).Defers := by
  refine markDirty_keeps (fun e p he => ?_) h seeds
  unfold Defers
  rw [(markedBy_markCell e p).unread_eq]
  exact unreadWithin_markCell he p

theorem defers_replaceFormula (h : e.Defers) (p : Position) (text : String) :
    (e.replaceFormula p text).Defers := by
  refine (h.replaceFormula p text _).mono fun q hq => ?_
  exact (mem_erase_iff _ _ _).mpr hq

/-! ### Passes -/

/-- A pass reads nothing and forgets nothing. -/
theorem unreadWithin_pass (h : e.workbook.UnreadWithin listed) (scope : PassScope) :
    (e.pass scope).workbook.UnreadWithin listed := by
  have hkept : Pass.Kept e.surroundings fun s => s.workbook.UnreadWithin listed := by
    refine Pass.Kept.of_seen (Q := fun w _ => w.UnreadWithin listed) (fun w _ p hw => ?_) (fun w _ p hw => ?_)
      fun s f hs => ?_
    · exact hw.modifyCell p fun _ => rfl
    · exact hw.modifyCell p fun _ => rfl
    · exact hs.modifyCell f.cell fun c => c.reading_finish _
  exact hkept.run h scope

theorem reading_readAs (read : String → Except ErrorValue Expr) {c : Cell}
    (h : c.reading = (false, false) ∨ c.reading = (true, true)) :
    (c.readAs read).reading = (false, false) := by
  obtain ⟨content, value, flags⟩ := c
  cases content with
  | formula f => rfl
  | constant v =>
    rcases h with hread | hunread
    · exact hread
    · cases hunread

/-- **Once the listed formulas have been read, all formulas have.** -/
theorem allRead_readAllLoaded (h : e.Defers) : e.readAllLoaded.AllRead := by
  unfold readAllLoaded
  dsimp only
  split
  · next hempty =>
    refine h.mono fun p hp => ?_
    have hmem := Std.TreeSet.mem_toList.mpr hp
    rw [List.isEmpty_iff.mp hempty] at hmem
    exact List.not_mem_nil hmem
  · have hread := readFrom_foldl { e with unread := {} } e.unread.toList
    refine markDirty_keeps (P := fun e => e.AllRead) (fun e p he => unreadWithin_markCell he p) ?_ _
    intro p c' hc'
    left
    obtain ⟨c, hc, ⟨-, heq⟩ | ⟨hp, heq⟩⟩ := hread.cell? hc'
    · rw [Cell.reading_eq_of_unlinked heq]
      refine reading_readAs _ ?_
      rcases h p c hc with hread | ⟨hunread, -⟩
      · exact Or.inl hread
      · exact Or.inr hunread
    · rw [Cell.reading_eq_of_unlinked heq]
      rcases h p c hc with hread | ⟨-, hlisted⟩
      · exact hread
      · exact absurd (Std.TreeSet.mem_toList.mpr hlisted) hp

/-- **A pass of any scope leaves no formula unread.** -/
theorem allRead_recompute (h : e.Defers) (scope : PassScope) : (e.recompute scope).1.AllRead :=
  unreadWithin_pass (allRead_readAllLoaded h) scope

theorem defers_afterEdit (h : e.Defers) : e.afterEdit.Defers := by
  unfold afterEdit
  split
  · exact (allRead_recompute h .dirty).defers
  · exact h

end Parts

/-- Of a cell it matters only whether it is unread, and whether it is listed then. -/
theorem isCellwise_defers : IsCellwise Defers where
  thinned h hthins := by
    intro p c hc
    rcases h p c (hthins.cell? p c hc) with hread | ⟨hunread, hlisted⟩
    · exact Or.inl hread
    · exact Or.inr ⟨hunread, hthins.unread p c hc hlisted⟩
  relinked h ps seeds := defers_afterEdit (defers_markDirty (defers_relinkAll h ps) seeds)

/-! ### Calls on cells -/

section Cells

variable {e : Engine} (h : e.Defers) (p : Position)
include h

theorem defers_take : (e.take p).Defers := isCellwise_defers.thinned h (thins_take e p)

theorem defers_putValue (v : Value) : (e.putValue p v).Defers := by
  unfold putValue
  split
  · exact isCellwise_defers.emptyCell h p
  · refine isCellwise_defers.marked ?_ [p]
    exact (defers_take h p).insertCell (Or.inl rfl)

theorem defers_putFormula (text : String) : (e.putFormula p text).Defers := by
  unfold putFormula
  refine isCellwise_defers.relinked ?_ [p] [p]
  refine (defers_take h p).insertCell (Or.inl ?_)
  cases e.workbook.cell? p <;> rfl

theorem defers_loadConstant (v : Value) : (e.loadConstant p v).Defers := by
  refine defers_markDirty ?_ [p]
  exact (defers_take h p).insertCell (Or.inl rfl)

theorem defers_loadFormula (text : String) (v : Value) : (e.loadFormula p text v).Defers := by
  have hlisted : (e.take p).workbook.UnreadWithin fun q => q ∈ (e.take p).unread.insert p :=
    (defers_take h p).mono fun q hq => (mem_insert_iff _ _ _).mpr (Or.inr hq)
  exact hlisted.insertCell (Or.inr ⟨rfl, (mem_insert_iff _ _ _).mpr (Or.inl rfl)⟩)

theorem defers_loadCell (sheet : SheetId) (a : Address) (saved : SavedCell) :
    (e.loadCell sheet a saved).engine.Defers := by
  refine perform_keeps h fun p _ => ?_
  dsimp only
  split
  · exact defers_loadFormula h p _ _
  · split
    · exact defers_loadConstant h p _
    · exact defers_loadConstant h p _
  · exact isCellwise_defers.emptyCell h p

end Cells

/-! ### New names of sheets -/

theorem defers_renameSheet {e : Engine} (h : e.Defers) (id : SheetId) (name : String) :
    (e.renameSheet id name).engine.Defers := by
  refine perform_keeps h fun ⟨w', old⟩ hrename => ?_
  have hrenamed : ({ e with workbook := w' } : Engine).Defers :=
    isCellwise_defers.thinned h (thins_of_cells (cell?_renameSheet hrename))
  dsimp only
  split
  · exact hrenamed
  · refine isCellwise_defers.relinked (foldl_keeps (P := Defers) (fun e entry _ he => ?_) hrenamed) _ _
    exact defers_relinkAll (defers_replaceFormula he _ _) [_]

/-! ### Edits of lines -/

/-- Whether a call strands a formula: it is an edit of lines that moves a formula whose text it replaces to
where an unread one stood, which it moves elsewhere without replacing its text. -/
def strands (e : Engine) : Call → Bool
  | .editLines id d =>
    match e.editable id d with
    | .error _ => false
    | .ok sheet =>
      let rewritten := (e.rewrites id d sheet).map Prod.fst
      e.unread.toList.any fun p =>
        rewritten.contains p && (e.image id d p).any fun q => !rewritten.contains q
  | _ => false

theorem mem_of_not_strands {e : Engine} {id : SheetId} {d : LineEdit} {sheet : Sheet}
    (h : e.strands (.editLines id d) = false) (hchecked : e.editable id d = .ok sheet) {p q : Position}
    (hp : p ∈ e.unread) (himage : e.image id d p = some q)
    (hrewritten : p ∈ (e.rewrites id d sheet).map Prod.fst) :
    q ∈ (e.rewrites id d sheet).map Prod.fst := by
  unfold strands at h
  dsimp only at h
  rw [hchecked] at h
  have hnot := List.any_eq_false.mp h p (Std.TreeSet.mem_toList.mpr hp)
  rw [himage] at hnot
  simpa [hrewritten] using hnot

/-- Formulas whose texts are replaced count as read. -/
theorem unreadWithin_foldl_replaceFormula {listed : Position → Prop} (edits : List (Position × String))
    {e : Engine} (h : e.workbook.UnreadWithin listed) :
    (edits.foldl (fun e entry => e.replaceFormula entry.1 entry.2) e).workbook.UnreadWithin
      fun q => q ∉ edits.map Prod.fst ∧ listed q := by
  induction edits generalizing e listed with
  | nil => exact h.mono fun q hq => ⟨List.not_mem_nil, hq⟩
  | cons entry edits ih =>
    have hreplaced : (e.replaceFormula entry.1 entry.2).workbook.UnreadWithin
        fun q => q ≠ entry.1 ∧ listed q := h.replaceFormula entry.1 entry.2 _
    refine (ih hreplaced).mono fun q ⟨hrest, hfirst, hq⟩ => ⟨?_, hq⟩
    rw [List.map_cons, List.mem_cons]
    exact fun hmem => hmem.elim hfirst hrest

/-- **An edit of lines that strands no formula keeps all unread formulas listed.** -/
theorem defers_applyEdit {e : Engine} (h : e.Defers) {id : SheetId} {d : LineEdit}
    (hstrands : e.strands (.editLines id d) = false) : (e.applyEdit id d).engine.Defers := by
  refine perform_keeps h fun sheet hchecked => ?_
  obtain ⟨hs, -, -⟩ := editable_eq_ok hchecked
  rw [shiftLines_eq]
  refine isCellwise_defers.relinked ?_ _ _
  let e' : Engine := { e with workbook := e.movedWorkbook id d sheet, names := e.movedNames id d }
  have hmoved : e'.workbook.UnreadWithin fun q => ∃ p ∈ e.unread, e.image id d p = some q := by
    intro q c hc
    obtain ⟨p, himage, hcell⟩ := source_movedWorkbook hs hc
    rcases h p c hcell with hread | ⟨hunread, hlisted⟩
    · exact Or.inl hread
    · exact Or.inr ⟨hunread, p, hlisted, himage⟩
  refine (unreadWithin_foldl_replaceFormula (e.rewrites id d sheet) hmoved).mono ?_
  -- The list is moved after the rewritten formulas were taken off at the positions to which they moved.
  rintro q ⟨hq, p, hlisted, himage⟩
  refine (mem_imageOf _ _ _).mpr ⟨p, ?_, himage⟩
  refine ((reworded_foldl (e.rewrites id d sheet) e').unread_iff p).mpr ⟨hlisted, fun hp => hq ?_⟩
  exact mem_of_not_strands hstrands hchecked hlisted himage hp

/-! ### All calls -/

theorem defers_buildDisplays {e : Engine} (h : e.Defers) : e.buildDisplays.2.Defers := by
  unfold Defers buildDisplays
  exact Workbook.UnreadWithin.buildDisplays h _

/-- **Every call that strands no formula keeps all unread formulas listed.** -/
theorem defers_after {e : Engine} (h : e.Defers) (hw : e.workbook.WellFormed) {c : Call}
    (hc : e.strands c = false) : (e.after c).Defers := by
  cases c with
  | addSheet name =>
    rw [after_addSheet]
    exact isCellwise_defers.addSheet h hw name
  | removeSheet sheet => exact isCellwise_defers.removeSheet h sheet
  | renameSheet sheet name => exact defers_renameSheet h sheet name
  | setFormula sheet a text =>
    refine perform_keeps h fun p _ => ?_
    dsimp only
    split
    · exact defers_putFormula h p text
    · exact defers_putValue h p _
  | setValue sheet a v => exact perform_keeps h fun p _ => defers_putValue h p v
  | clearCell sheet a => exact perform_keeps h fun p _ => isCellwise_defers.emptyCell h p
  | loadCell sheet a saved => exact defers_loadCell h sheet a saved
  | defineName name sheet rect => exact isCellwise_defers.defineName h name sheet rect
  | removeName name => exact isCellwise_defers.removeName h name
  | mergeCells sheet rect => exact isCellwise_defers.mergeCells h sheet rect
  | unmergeCells sheet rect => exact isCellwise_defers.unmergeCells h sheet rect
  | editLines sheet edit => exact defers_applyEdit h hc
  | recalculate scope => exact perform_keeps h fun _ _ => (allRead_recompute h scope).defers
  | evaluateCell sheet a => exact perform_keeps h fun p _ => (allRead_recompute h (.cell p)).defers
  | buildDisplays => exact defers_buildDisplays h
  | listen => exact h
  | unlisten => exact h
  | collect => exact h

/-- Whether one of several calls, one after the other, strands a formula. -/
def strandsOne (e : Engine) : List Call → Bool
  | [] => false
  | c :: cs => e.strands c || (e.after c).strandsOne cs

/-- **Calls that strand no formula keep all unread formulas listed.** -/
theorem defers_run {e : Engine} (h : e.Defers) (hconsistent : e.Consistent)
    (hcount : e.settings.IsCountable) {cs : List Call} (hcs : e.strandsOne cs = false) :
    (e.run cs).Defers := by
  induction cs generalizing e with
  | nil => exact h
  | cons c cs ih =>
    obtain ⟨hc, hrest⟩ := Bool.or_eq_false_iff.mp hcs
    have hkeeps := keeps_after hconsistent hcount c
    refine ih (defers_after h hconsistent.wellFormed hc) hkeeps.consistent ?_ hrest
    rw [hkeeps.settings_eq]
    exact hcount

/-! ### What a pass leaves -/

/-- No formula that was put off is lost. -/
structure KeepsUnread (e : Engine) : Prop where
  /-- A formula that carries the mark of an unread one, or has neither a tree nor a syntax error, is
  listed. -/
  listed : ∀ p c f, e.workbook.cell? p = some c → c.content = .formula f →
    c.flags.unread = true ∨ f.parsed = none → p ∈ e.unread
  /-- After a pass of any scope no cell carries the mark. -/
  unmarked : ∀ scope p c, (e.recompute scope).1.workbook.cell? p = some c → c.flags.unread = false
  /-- After a pass of any scope every formula has been read from its text and is linked. -/
  read : ∀ scope p c f, (e.recompute scope).1.workbook.cell? p = some c → c.content = .formula f →
    f.parsed = some (e.readFormula f.text) ∧ (e.recompute scope).1.LinkedAt p

theorem keepsUnread_of_defers {e : Engine} (h : e.Defers) (hconsistent : e.Consistent) : e.KeepsUnread := by
  have hall := allRead_recompute h
  constructor
  case listed =>
    intro p c f hc hf hunread
    rcases h p c hc with hread | ⟨-, hlisted⟩
    · obtain ⟨content, value, flags⟩ := c
      cases hf
      obtain ⟨hformula, hmark⟩ := Prod.mk.inj hread
      rcases hunread with hflag | hparsed
      · rw [hflag] at hmark
        cases hmark
      · unfold Cell.isUnread Cell.formula? Formula.isParsed at hformula
        simp [hparsed] at hformula
    · exact hlisted
  case unmarked =>
    intro scope p c hc
    rcases hall scope p c hc with hread | ⟨-, hnever⟩
    · exact (Prod.mk.inj hread).2
    · exact hnever.elim
  case read =>
    intro scope p c f hc hf
    have hconsistent' := consistent_recompute hconsistent scope
    refine ⟨?_, hconsistent'.linked p⟩
    rcases (hconsistent'.cells p c hc).formula f hf with hnone | hsome
    · rcases hall scope p c hc with hread | ⟨-, hnever⟩
      · obtain ⟨content, value, flags⟩ := c
        cases hf
        have hformula := (Prod.mk.inj hread).1
        unfold Cell.isUnread Cell.formula? Formula.isParsed at hformula
        simp [hnone] at hformula
      · exact hnever.elim
    · rw [hsome, readFormula_congr (settings_recompute hconsistent scope).1]

/-- **Reading can be put off**: after calls of which none strands a formula, all unread formulas are
listed, and a pass of any scope leaves every formula read and linked. -/
theorem keepsUnread_run {settings : Settings} (hcount : settings.IsCountable) (library : Library)
    {cs : List Call} (hcs : (start settings library).strandsOne cs = false) :
    ((start settings library).run cs).KeepsUnread := by
  have hconsistent := consistent_start settings library
  have hreachable : Reachable library ((start settings library).run cs) :=
    reachable_iff_exists_run.mpr ⟨settings, hcount, cs, rfl⟩
  refine keepsUnread_of_defers ?_ hreachable.consistent
  refine defers_run (fun p c hc => ?_) hconsistent hcount hcs
  rw [cell?_start] at hc
  cases hc

/-- Calls that load formulas among others and move them, and replace the text of one of them. -/
def loadedAndMoved : List Call :=
  [.addSheet "S", .loadCell firstSheet (.plain 1 2) ⟨"=B2", .empty⟩,
    .loadCell firstSheet (.plain 1 5) ⟨"=TRUE", .boolean true⟩,
    .setFormula firstSheet (.plain 3 1) "=A2", .editLines firstSheet ⟨.rows, .insertion, 1, 1⟩,
    .renameSheet firstSheet "T", .recalculate (.cell ⟨firstSheet, 2, 3⟩)]

theorem keepsUnread_loadedAndMoved :
    Settings.IsCountable {} ∧ (start {} .standard).strandsOne loadedAndMoved = false ∧
      ((start {} .standard).run loadedAndMoved).KeepsUnread := by
  have hcount : Settings.IsCountable {} := ⟨by decide, by decide⟩
  have hnone : (start {} .standard).strandsOne loadedAndMoved = false := by decide +kernel
  exact ⟨hcount, hnone, keepsUnread_run hcount .standard hnone⟩

/-! ### A stranded formula -/

/-- Calls that load two formulas, one below the other, and move both down by a row. The text of the first
one is replaced. -/
def stranded : List Call :=
  [.addSheet "S", .loadCell firstSheet (.plain 1 1) ⟨"=B1", .empty⟩,
    .loadCell firstSheet (.plain 1 2) ⟨"=TRUE", .empty⟩,
    .editLines firstSheet ⟨.rows, .insertion, 1, 1⟩]

/-- **A formula that was stranded is not listed**, and no pass reads it. -/
theorem not_keepsUnread_stranded : ¬((start {} .standard).run stranded).KeepsUnread := by
  intro h
  let e := ((start {} .standard).run stranded).recompute .full |>.1
  have hmarked : (e.workbook.cell? ⟨firstSheet, 3, 1⟩).any (fun c => c.flags.unread) = true := by
    decide +kernel
  obtain ⟨c, hc, hmark⟩ := (Option.any_eq_true _ _).mp hmarked
  rw [h.unmarked .full _ c hc] at hmark
  cases hmark

end Engine

end Spreadsheet
