import Spreadsheet.Proofs.Changing
import Spreadsheet.Engine.Storage

/-!
# Writing: edits of one cell

Setting, emptying and loading a cell all replace what there is at one position and leave the rest of the
engine alone. `Engine.Rewritten` says so, and `Rewritten.edit` gives the edit that this is, for anything
that may be put into the cell. The calls on cells are its cases: `changesTo_emptyCell`,
`changesTo_putValue`, `changesTo_putFormula`, `changesTo_loadCell`.
-/

namespace Spreadsheet

open Grid DependencyGraph

namespace Engine

/-- One engine is the other with something else at one position. -/
structure Rewritten (p : Position) (e e₁ : Engine) : Prop where
  rest_eq : e₁ = { e with
    workbook := e₁.workbook, graph := e₁.graph, dirty := e₁.dirty, unread := e₁.unread,
    changes := e₁.changes }
  frame : e₁.workbook.SameFrame e.workbook
  wellFormed : e.workbook.WellFormed → e₁.workbook.WellFormed
  symmetric : e.graph.IsSymmetric → e₁.graph.IsSymmetric
  cell_eq : ∀ q, q ≠ p → e₁.workbook.cell? q = e.workbook.cell? q
  link_eq : ∀ q, q ≠ p → e₁.graph.link q = e.graph.link q
  dirty_iff : ∀ q, q ≠ p → (q ∈ e₁.dirty ↔ q ∈ e.dirty)
  unread_iff : ∀ q, q ≠ p → (q ∈ e₁.unread ↔ q ∈ e.unread)

namespace Rewritten

variable {E : ErrorValue.Likeness} {renamed : SheetId → Prop} {p : Position} {e e₁ : Engine}

theorem settings_eq (h : Rewritten p e e₁) : e₁.settings = e.settings := by rw [h.rest_eq]

theorem names_eq (h : Rewritten p e e₁) : e₁.names = e.names := by rw [h.rest_eq]

theorem scope_eq (h : Rewritten p e e₁) : e₁.scope = e.scope := by
  unfold scope
  rw [h.names_eq, h.settings_eq]
  exact h.frame.scope_eq e.names e.settings

theorem untouched (h : Rewritten p e e₁) {q : Position} (hq : q ≠ p) : Untouched e e₁ q := by
  exact untouched_of_scope h.scope_eq (Workbook.core?_eq_of_cell (h.cell_eq q hq))
    (Workbook.content?_eq_of_cell (h.cell_eq q hq)) (h.link_eq q hq) (h.dirty_iff q hq) (h.unread_iff q hq)

/-- The engine stays in order if the new cell is so, and dirty. -/
theorem orderly (h : Rewritten p e e₁) (he : e.Orderly)
    (hcell : ∀ c, e₁.workbook.cell? p = some c → c.IsOrderly e.readFormula ∧ c.flags.dirty = true)
    (hstored : p ∈ e₁.dirty → (e₁.workbook.cell? p).isSome = true)
    (hunread : p ∈ e₁.unread → p ∈ e₁.dirty) : e₁.Orderly := by
  refine he.of_sameFrame h.settings_eq h.names_eq h.frame (h.wellFormed he.wellFormed)
    (h.symmetric he.symmetric) ?cells ?stored ?unread ?marked
  case cells =>
    intro q c hc
    by_cases hq : q = p
    · subst hq
      exact (hcell c hc).1
    · rw [h.cell_eq q hq] at hc
      exact he.cells q c hc
  case stored =>
    intro q hq
    by_cases hqp : q = p
    · subst hqp
      exact hstored hq
    · rw [h.cell_eq q hqp]
      exact he.stored q ((h.dirty_iff q hqp).mp hq)
  case unread =>
    intro q hq
    by_cases hqp : q = p
    · subst hqp
      exact hunread hq
    · exact (h.dirty_iff q hqp).mpr (he.unread q ((h.unread_iff q hqp).mp hq))
  case marked =>
    intro hroomy q c hc hd
    by_cases hq : q = p
    · subst hq
      exact (hcell c hc).2
    · rw [h.cell_eq q hq] at hc
      exact he.marked hroomy q c hc ((h.dirty_iff q hq).mp hd)

/-- **Replacing what is at one position is an edit**, if the position is a seed, or what it holds is
dirty and still to be read. -/
theorem edit (h : Rewritten p e e₁) (he : e.Consistent) {ps seeds : List Position}
    (hcell : ∀ c, e₁.workbook.cell? p = some c → c.IsOrderly e.readFormula ∧ c.flags.dirty = true)
    (hstored : p ∈ e₁.dirty → (e₁.workbook.cell? p).isSome = true)
    (hunread : p ∈ e₁.unread → p ∈ e₁.dirty)
    (hlinked : e₁.LinkedAt p ∨ (p ∈ ps ∧ ¬e₁.IsUnread p))
    (htouched : p ∈ seeds ∨ (p ∈ e₁.dirty ∧ p ∈ e₁.unread)) : Edit some e e₁ ps seeds := by
  refine Edit.inPlace (fun q => q = p) he h.settings_eq (by rw [h.rest_eq])
    (h.orderly he.toOrderly hcell hstored hunread) ?_ ?_ ?_ (fun q hq => h.untouched hq) ?_
  · intro q c hc hflag
    by_cases hq : q = p
    · subst hq
      exact htouched.symm.imp_left And.left
    · rw [h.cell_eq q hq] at hc
      exact Or.inl ((h.dirty_iff q hq).mpr (he.flagged q c hc hflag))
  · rintro q rfl
    exact hlinked
  · rintro q rfl
    exact htouched.imp_right Or.inl
  · intro _ _ q _ _
    rw [h.frame.isObscured_eq]

/-- Replacing what is at one position is faithful, if what is linked again is the position itself. -/
theorem revised (h : Rewritten p e e₁) {ps seeds : List Position} (hedit : Edit some e e₁ ps seeds)
    (hps : ∀ q ∈ ps, q ∈ seeds) : Revised E renamed e ((e₁.relinkAll ps).markDirty seeds) :=
  hedit.revised (fun q hq => Or.inr (hps q hq)) fun id _ _ => h.frame.sheetName_eq id

/-- Storing a cell where a sheet is. -/
theorem store (h : Rewritten p e e₁) (c : Cell) : Rewritten p e (e₁.store p c) := by
  refine ⟨?_, (Workbook.sameFrame_insertCell _ _ _).trans h.frame,
    fun hw => (h.wellFormed hw).modifySheet _ _, h.symmetric, fun q hq => ?_, h.link_eq, h.dirty_iff,
    h.unread_iff⟩
  · show { e₁ with workbook := _ } = _
    rw [h.rest_eq]
    rfl
  · show (e₁.workbook.insertCell p c).cell? q = _
    rw [Workbook.cell?_insertCell, if_neg hq]
    exact h.cell_eq q hq

end Rewritten

theorem cell_store {e : Engine} {p : Position} (h : e.workbook.contains p.sheet = true) (c : Cell) :
    (e.store p c).workbook.cell? p = some c := by
  show (e.workbook.insertCell p c).cell? p = _
  rw [Workbook.cell?_insertCell, if_pos rfl, if_pos h]

/-- Taking a cell out of storage leaves nothing at its position. -/
theorem take_spec {e : Engine} (h : e.Consistent) (p : Position) :
    Rewritten p e (e.take p) ∧ (e.take p).workbook.cell? p = none ∧ (e.take p).graph.link p = {} ∧
      p ∉ (e.take p).unread ∧ (e.take p).dirty = e.dirty := by
  unfold take
  cases hc : e.workbook.cell? p with
  | none =>
    refine ⟨⟨rfl, Workbook.SameFrame.refl _, fun hw => hw, fun hs => hs, fun _ _ => rfl, fun _ _ => rfl,
      fun _ _ => Iff.rfl, fun _ _ => Iff.rfl⟩, hc, link_of_no_cell (h.linked p) hc, fun hp => ?_, rfl⟩
    have hstored := h.stored p (h.unread p hp)
    rw [hc] at hstored
    cases hstored
  | some c =>
    refine ⟨⟨rfl, Workbook.sameFrame_eraseCell _ _, fun hw => hw.modifySheet _ _, fun hs => hs.clear p,
      fun q hq => ?_, fun q hq => ?_, fun _ _ => Iff.rfl, fun q hq => ?_⟩, ?_, ?_, ?_, rfl⟩
    · exact (Workbook.cell?_eraseCell _ _ _).trans (if_neg hq)
    · exact (link_clear _ _ _).trans (if_neg hq)
    · rw [mem_erase_iff]
      exact and_iff_right hq
    · exact (Workbook.cell?_eraseCell _ _ _).trans (if_pos rfl)
    · exact (link_clear _ _ _).trans (if_pos rfl)
    · rw [mem_erase_iff]
      exact fun hp => hp.1 rfl

/-- Putting a formula into a cell stores a cell that is in order, dirty and read. It shows what was shown
before. -/
theorem putFormula_spec (e : Engine) (p : Position) (text : String) :
    ∃ c : Cell, c.IsOrderly e.readFormula ∧ c.flags.dirty = true ∧
      (∀ f, c.content = .formula f → f.parsed ≠ none) ∧
      e.putFormula p text = ((((e.take p).store p c).relink p).markDirty [p]).afterEdit := by
  have hfresh : (Cell.formula text (e.readFormula text)).IsOrderly e.readFormula := by
    refine ⟨fun v hv => ?_, fun f hf => ?_, rfl, Cell.errorMarkAgrees_formula _ _⟩
    · cases hv
    · cases hf
      exact Or.inr rfl
  have hparsed : ∀ f, (Cell.formula text (e.readFormula text)).content = .formula f → f.parsed ≠ none := by
    intro f hf
    cases hf
    exact Option.some_ne_none _
  unfold putFormula
  dsimp only
  cases e.workbook.cell? p with
  | none => exact ⟨_, hfresh, rfl, hparsed, rfl⟩
  | some previous =>
    refine ⟨(Cell.formula text (e.readFormula text)).storeValue previous.value,
      ⟨fun v hv => ?_, hfresh.formula, rfl, Cell.errorMarkAgrees_storeValue _ _⟩, rfl, hparsed, rfl⟩
    cases hv

/-- The engine without the cell at a position, and with these changes recorded. -/
def withoutCell (e : Engine) (p : Position) (changes : PositionSet) : Engine :=
  { e.take p with dirty := (e.take p).dirty.erase p, changes }

/-! ### The calls on cells -/

/-- A new constant is in order. -/
theorem isOrderly_constant (read : String → Except ErrorValue Expr) (v : Value) :
    (Cell.constant v).IsOrderly read := by
  refine ⟨fun u hu => ?_, fun f hf => ?_, rfl, Cell.errorMarkAgrees_constant v⟩
  · cases hu
    rfl
  · cases hf

section Calls

variable {E : ErrorValue.Likeness} {renamed : SheetId → Prop} {e : Engine} (h : e.Consistent) (p : Position)
include h

/-- Changes that are recorded concern no one else. -/
theorem rewritten_take (changes : PositionSet) : Rewritten p e { e.take p with changes } := by
  obtain ⟨hrewritten, -⟩ := take_spec h p
  refine { hrewritten with rest_eq := ?_ }
  rw [hrewritten.rest_eq]

/-- Taking a cell out of storage for good, so that it is not dirty either. -/
theorem edit_withoutCell (changes : PositionSet) :
    Rewritten p e (e.withoutCell p changes) ∧ Edit some e (e.withoutCell p changes) [] [p] := by
  obtain ⟨hrewritten, hnone, hlink, hunread, hdirty⟩ := take_spec h p
  have hrewritten₁ : Rewritten p e (e.withoutCell p changes) := by
    refine { hrewritten with rest_eq := ?_, dirty_iff := fun q hq => ?_ }
    · unfold withoutCell
      rw [hrewritten.rest_eq]
    · show q ∈ (e.take p).dirty.erase p ↔ _
      rw [mem_erase_iff, hdirty]
      exact and_iff_right hq
  have hnot : p ∉ (e.withoutCell p changes).dirty := fun hp => ((mem_erase_iff _ _ _).mp hp).1 rfl
  refine ⟨hrewritten₁, hrewritten₁.edit h (fun c hc => ?_) (fun hp => absurd hp hnot)
    (fun hp => absurd hp hunread) (Or.inl ?_) (Or.inl (List.mem_singleton.mpr rfl))⟩
  · have hc : (e.take p).workbook.cell? p = some c := hc
    rw [hnone] at hc
    cases hc
  · exact linkedAt_of_no_cell (e := e.withoutCell p changes) hnone hlink

theorem changesTo_emptyCell : ChangesTo E renamed e (e.emptyCell p) := by
  unfold emptyCell
  cases hc : e.workbook.cell? p with
  | none => exact ChangesTo.refl h
  | some previous =>
    obtain ⟨hrewritten, hedit⟩ := edit_withoutCell h p
      (if previous.value.isEmpty then (e.take p).changes else (e.take p).changes.insert p)
    exact (hrewritten.revised hedit fun _ hq => absurd hq List.not_mem_nil).changesTo_afterEdit

/-- Storing a cell that is dirty and in order, in place of what there was. -/
theorem edit_store (changes : PositionSet) (hsheet : e.workbook.contains p.sheet = true) {c : Cell}
    (hc : c.IsOrderly e.readFormula) (hdirty : c.flags.dirty = true) (ps : List Position)
    (hlinked : (c.tree? = none ∧ c.linkKind? = none) ∨ (p ∈ ps ∧ ∀ f, c.content = .formula f → f.parsed ≠ none)) :
    Edit some e (({ e.take p with changes } : Engine).store p c) ps [p] := by
  obtain ⟨-, -, hlink, hunread, -⟩ := take_spec h p
  have hrewritten := (rewritten_take h p changes).store c
  have hcell : (({ e.take p with changes } : Engine).store p c).workbook.cell? p = some c := by
    apply cell_store
    show (e.take p).workbook.contains p.sheet = true
    rw [(rewritten_take h p changes).frame.contains_eq]
    exact hsheet
  refine hrewritten.edit h (fun d hd => ?_) (fun _ => ?_) (fun hp => absurd hp hunread) ?_
    (Or.inl (List.mem_singleton.mpr rfl))
  · rw [hcell] at hd
    cases hd
    exact ⟨hc, hdirty⟩
  · rw [hcell]
    rfl
  · rcases hlinked with ⟨htree, hkind⟩ | ⟨hp, hread⟩
    · left
      refine linkedAt_of_blank ?_ ?_ hlink
      · unfold Workbook.tree?
        rw [hcell]
        exact htree
      · unfold Workbook.linkKind?
        rw [hcell]
        exact hkind
    · refine Or.inr ⟨hp, ?_⟩
      rintro ⟨d, f, hd, hf, hparsed⟩
      rw [hcell] at hd
      cases hd
      exact hread f hf hparsed

/-- Storing such a cell is an edit. -/
theorem revised_store (changes : PositionSet) (hsheet : e.workbook.contains p.sheet = true) {c : Cell}
    (hc : c.IsOrderly e.readFormula) (hdirty : c.flags.dirty = true) (ps : List Position)
    (hps : ∀ q ∈ ps, q = p)
    (hlinked : (c.tree? = none ∧ c.linkKind? = none) ∨ (p ∈ ps ∧ ∀ f, c.content = .formula f → f.parsed ≠ none)) :
    Revised E renamed e (((({ e.take p with changes } : Engine).store p c).relinkAll ps).markDirty [p]) :=
  ((rewritten_take h p changes).store c).revised (edit_store h p changes hsheet hc hdirty ps hlinked)
    fun q hq => List.mem_singleton.mpr (hps q hq)

theorem changesTo_putValue (hsheet : e.workbook.contains p.sheet = true) (v : Value) :
    ChangesTo E renamed e (e.putValue p v) := by
  unfold putValue
  split
  · exact changesTo_emptyCell h p
  · exact (revised_store h p (if e.differsFrom p v then e.changes.insert p else e.changes) hsheet
      (isOrderly_constant _ v) rfl [] (fun _ hq => absurd hq List.not_mem_nil)
      (Or.inl ⟨rfl, rfl⟩)).changesTo_afterEdit

theorem changesTo_putFormula (hsheet : e.workbook.contains p.sheet = true) (text : String) :
    ChangesTo E renamed e (e.putFormula p text) := by
  obtain ⟨c, hc, hdirty, hparsed, heq⟩ := putFormula_spec e p text
  rw [heq]
  exact (revised_store h p (e.take p).changes hsheet hc hdirty [p] (fun _ => List.mem_singleton.mp)
    (Or.inr ⟨List.mem_singleton.mpr rfl, hparsed⟩)).changesTo_afterEdit

theorem changesTo_loadConstant (hsheet : e.workbook.contains p.sheet = true) (v : Value) :
    ChangesTo E renamed e (e.loadConstant p v) :=
  (revised_store h p (e.take p).changes hsheet (isOrderly_constant _ v) rfl []
    (fun _ hq => absurd hq List.not_mem_nil) (Or.inl ⟨rfl, rfl⟩)).changesTo

/-- A loaded formula is stored unread, and nothing else changes. -/
theorem loadFormula_spec (hsheet : e.workbook.contains p.sheet = true) (text : String) (v : Value) :
    Rewritten p e (e.loadFormula p text v) ∧
      (e.loadFormula p text v).workbook.cell? p = some (.loaded text v) ∧
      (e.loadFormula p text v).graph.link p = {} := by
  obtain ⟨-, -, hlink, -, -⟩ := take_spec h p
  have hstore := (rewritten_take h p (e.take p).changes).store (.loaded text v)
  have hcell : ((e.take p).store p (.loaded text v)).workbook.cell? p = some (.loaded text v) := by
    apply cell_store
    rw [(rewritten_take h p (e.take p).changes).frame.contains_eq]
    exact hsheet
  refine ⟨?_, hcell, hlink⟩
  refine { hstore with rest_eq := ?_, dirty_iff := fun q hq => ?_, unread_iff := fun q hq => ?_ }
  · show ({ (e.take p).store p (.loaded text v) with unread := _, dirty := _ } : Engine) = _
    rw [hstore.rest_eq]
    rfl
  · rw [← hstore.dirty_iff q hq]
    show q ∈ Std.TreeSet.insert _ p ↔ _
    rw [mem_insert_iff]
    exact or_iff_right hq
  · rw [← hstore.unread_iff q hq]
    show q ∈ Std.TreeSet.insert _ p ↔ _
    rw [mem_insert_iff]
    exact or_iff_right hq

theorem changesTo_loadFormula (hsheet : e.workbook.contains p.sheet = true) (text : String) (v : Value) :
    ChangesTo E renamed e (e.loadFormula p text v) := by
  obtain ⟨hrewritten, hcell, hlink⟩ := loadFormula_spec h p hsheet text v
  let e₁ := e.loadFormula p text v
  have hdirty : p ∈ e₁.dirty := (mem_insert_iff _ _ _).mpr (Or.inl rfl)
  have hunread : p ∈ e₁.unread := (mem_insert_iff _ _ _).mpr (Or.inl rfl)
  have hedit : Edit some e e₁ [] [] := by
    refine hrewritten.edit h (fun c hc => ?_) (fun _ => ?_) (fun _ => hdirty) (Or.inl ?_)
      (Or.inr ⟨hdirty, hunread⟩)
    · rw [hcell] at hc
      cases hc
      refine ⟨⟨fun u hu => ?_, fun f hf => ?_, rfl, Cell.errorMarkAgrees_loaded _ _⟩, rfl⟩
      · cases hu
      · cases hf
        exact Or.inl rfl
    · rw [hcell]
      rfl
    · refine linkedAt_of_blank ?_ ?_ hlink
      · unfold Workbook.tree?
        rw [hcell]
        rfl
      · unfold Workbook.linkKind?
        rw [hcell]
        rfl
  have hrevised : Revised E renamed e (e₁.markDirty []) :=
    hrewritten.revised hedit fun _ hq => absurd hq List.not_mem_nil
  rw [markDirty_nil] at hrevised
  exact hrevised.changesTo

end Calls

/-! ### Replies -/

theorem contains_of_locate {e : Engine} {sheet : SheetId} {a : Address} {p : Position}
    (h : e.locate sheet a = .ok p) : e.workbook.contains p.sheet = true := by
  unfold locate at h
  cases hget : e.workbook.get sheet with
  | error problem =>
    rw [hget] at h
    cases h
  | ok s =>
    rw [hget] at h
    dsimp only at h
    split at h
    · cases h
      unfold Workbook.get at hget
      show (e.workbook.sheet? sheet).isSome = true
      split at hget
      · next hs =>
        rw [hs]
        rfl
      · cases hget
    · cases h

section Replies

variable {E : ErrorValue.Likeness} {renamed : SheetId → Prop} {e : Engine} (h : e.Consistent) (sheet : SheetId)
  (a : Address)
include h

theorem changesTo_setValue (v : Value) : ChangesTo E renamed e (e.setValue sheet a v).engine :=
  changesTo_perform h fun p hp => changesTo_putValue h p (contains_of_locate hp) v

theorem changesTo_setFormula (text : String) : ChangesTo E renamed e (e.setFormula sheet a text).engine := by
  refine changesTo_perform h fun p hp => ?_
  dsimp only
  split
  · exact changesTo_putFormula h p (contains_of_locate hp) text
  · exact changesTo_putValue h p (contains_of_locate hp) _

theorem changesTo_clearCell : ChangesTo E renamed e (e.clearCell sheet a).engine :=
  changesTo_perform h fun p _ => changesTo_emptyCell h p

theorem changesTo_loadCell (saved : SavedCell) : ChangesTo E renamed e (e.loadCell sheet a saved).engine := by
  refine changesTo_perform h fun p hp => ?_
  have hsheet := contains_of_locate hp
  dsimp only
  split
  · exact changesTo_loadFormula h p hsheet _ _
  · split
    · exact changesTo_loadConstant h p hsheet _
    · exact changesTo_loadConstant h p hsheet _
  · exact changesTo_emptyCell h p

end Replies

end Engine

end Spreadsheet
