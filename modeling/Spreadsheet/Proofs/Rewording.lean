import Spreadsheet.Proofs.Mentions
import Spreadsheet.Proofs.Changing
import Spreadsheet.Engine.Sheets

/-!
# Rewording: formulas whose texts are replaced

Renaming a sheet and editing lines replace the texts of formulas and leave all else alone
(`Engine.Reworded`). Which formulas these are is found in the texts, but every formula with a reference
that changes is among them (`mem_editedFormulas`).

When a sheet is renamed, the reworded formulas are linked again one by one. Every other formula that meant
something goes on to mean it, since its references name no sheet that has lost its name
(`edit_renameSheet`).
-/

namespace Spreadsheet

open Grid DependencyGraph

/-- A cell stays in order when the text of its formula is replaced, and its dirty mark stays. -/
theorem Cell.IsOrderly.replaceFormula {read : String → Except ErrorValue Expr} {c : Cell}
    (h : c.IsOrderly read) (text : String) : (c.replaceFormula text (read text)).IsOrderly read := by
  obtain ⟨content, value, flags⟩ := c
  cases content with
  | constant v => exact h
  | formula f =>
    refine ⟨fun v hv => ?_, fun f' hf' => ?_, h.idle, h.error⟩
    · cases hv
    · cases hf'
      exact Or.inr rfl

/-- The tree of a formula in order was read from its text. -/
theorem Cell.IsOrderly.read_eq {read : String → Except ErrorValue Expr} {c : Cell} (h : c.IsOrderly read)
    {f : Formula} (hf : c.content = .formula f) {parsed : Except ErrorValue Expr} (hparsed : f.parsed = some parsed) :
    read f.text = parsed := by
  have hread := h.formula f hf
  rw [hparsed] at hread
  exact (Option.some.inj (hread.resolve_left (Option.some_ne_none _))).symm

theorem Cell.dirty_replaceFormula (c : Cell) (text : String) (parsed : Except ErrorValue Expr) :
    (c.replaceFormula text parsed).flags.dirty = c.flags.dirty := by
  obtain ⟨content, value, flags⟩ := c
  cases content <;> rfl

namespace Engine

/-! ### Which formulas are edited -/

theorem readFormula_eq_ok {e : Engine} {text : String} {x : Expr} :
    e.readFormula text = .ok x ↔ Expr.parse e.settings.locale text = .ok x := by
  unfold readFormula
  cases Expr.parse e.settings.locale text with
  | error problem => exact ⟨fun h => (by cases h), fun h => (by cases h)⟩
  | ok y => exact ⟨fun h => (by cases h; rfl), fun h => (by cases h; rfl)⟩

/-- Every tree of an engine in order was parsed from the text of its formula. -/
theorem parse_of_tree {e : Engine} (h : e.Orderly) {p : Position} {x : Expr}
    (hx : e.workbook.tree? p = some x) :
    ∃ c text, e.workbook.cell? p = some c ∧ c.formulaText? = some text ∧
      Expr.parse e.settings.locale text = .ok x := by
  obtain ⟨c, hc, htree⟩ := Option.bind_eq_some_iff.mp hx
  obtain ⟨f, hf, hparsed⟩ := Cell.tree?_eq_some.mp htree
  exact ⟨c, f.text, hc, congrArg (Option.map Formula.text) (Cell.formula?_eq_some.mpr hf),
    readFormula_eq_ok.mp ((h.cells p c hc).read_eq hf hparsed)⟩

/-- **Every formula with a reference that an edit changes is edited.** -/
theorem mem_editedFormulas {e : Engine} (h : e.Orderly) {edit : Position → Reference → Option String}
    {p : Position} {x : Expr} (hx : e.workbook.tree? p = some x) {entry : String × Reference}
    (hentry : entry ∈ x.references) (hpositional : entry.2.isPositional = true) {new : String}
    (hedit : edit p entry.2 = some new) : p ∈ (e.editedFormulas edit).map Prod.fst := by
  obtain ⟨c, text, hc, htext, hparse⟩ := parse_of_tree h hx
  obtain ⟨text', htext'⟩ := editReferences_of_parse hparse hentry hpositional hedit
  refine List.mem_map.mpr ⟨(p, text'), List.mem_filterMap.mpr ⟨(p, text), ?_, ?_⟩, rfl⟩
  · exact (Workbook.mem_formulaTexts h.wellFormed).mpr ⟨c, hc, htext⟩
  · dsimp only
    rw [htext']

/-! ### Replaced texts -/

/-- One engine is the other with other texts for the formulas at some positions, which were read. -/
structure Reworded (ps : List Position) (e e₁ : Engine) : Prop where
  rest_eq : e₁ = { e with workbook := e₁.workbook, graph := e₁.graph, unread := e₁.unread }
  frame : e₁.workbook.SameFrame e.workbook
  wellFormed : e.workbook.WellFormed → e₁.workbook.WellFormed
  symmetric : e.graph.IsSymmetric → e₁.graph.IsSymmetric
  isSome_eq : ∀ q, (e₁.workbook.cell? q).isSome = (e.workbook.cell? q).isSome
  cell : ∀ q c₁, e₁.workbook.cell? q = some c₁ → ∃ c, e.workbook.cell? q = some c ∧
    c₁.flags.dirty = c.flags.dirty ∧ (c.IsOrderly e.readFormula → c₁.IsOrderly e.readFormula)
  cell_eq : ∀ q, q ∉ ps → e₁.workbook.cell? q = e.workbook.cell? q
  link_eq : ∀ q, q ∉ ps → e₁.graph.link q = e.graph.link q
  read : ∀ q ∈ ps, ¬e₁.IsUnread q
  unread_iff : ∀ q, q ∈ e₁.unread ↔ q ∈ e.unread ∧ q ∉ ps

namespace Reworded

variable {ps ps' : List Position} {e e₁ e₂ : Engine}

theorem refl (e : Engine) : Reworded [] e e :=
  ⟨rfl, Workbook.SameFrame.refl _, fun h => h, fun h => h, fun _ => rfl,
    fun _ c hc => ⟨c, hc, rfl, fun h => h⟩, fun _ _ => rfl, fun _ _ => rfl,
    fun _ hq => absurd hq List.not_mem_nil, fun _ => (and_iff_left List.not_mem_nil).symm⟩

theorem settings_eq (h : Reworded ps e e₁) : e₁.settings = e.settings := by rw [h.rest_eq]

theorem names_eq (h : Reworded ps e e₁) : e₁.names = e.names := by rw [h.rest_eq]

theorem dirty_eq (h : Reworded ps e e₁) : e₁.dirty = e.dirty := by rw [h.rest_eq]

theorem scope_eq (h : Reworded ps e e₁) : e₁.scope = e.scope := by
  unfold scope
  rw [h.names_eq, h.settings_eq]
  exact h.frame.scope_eq e.names e.settings

theorem trans (h : Reworded ps e e₁) (h' : Reworded ps' e₁ e₂) : Reworded (ps ++ ps') e e₂ := by
  constructor
  case rest_eq =>
    have hrest := h'.rest_eq
    rw [h.rest_eq] at hrest
    exact hrest
  case frame => exact h'.frame.trans h.frame
  case wellFormed => exact fun hw => h'.wellFormed (h.wellFormed hw)
  case symmetric => exact fun hg => h'.symmetric (h.symmetric hg)
  case isSome_eq => exact fun q => (h'.isSome_eq q).trans (h.isSome_eq q)
  case cell =>
    intro q c₂ hc₂
    obtain ⟨c₁, hc₁, hdirty₁, horderly₁⟩ := h'.cell q c₂ hc₂
    obtain ⟨c, hc, hdirty, horderly⟩ := h.cell q c₁ hc₁
    rw [readFormula_congr h.settings_eq] at horderly₁
    exact ⟨c, hc, hdirty₁.trans hdirty, fun ho => horderly₁ (horderly ho)⟩
  case cell_eq =>
    intro q hq
    rw [List.mem_append, not_or] at hq
    exact (h'.cell_eq q hq.2).trans (h.cell_eq q hq.1)
  case link_eq =>
    intro q hq
    rw [List.mem_append, not_or] at hq
    exact (h'.link_eq q hq.2).trans (h.link_eq q hq.1)
  case read =>
    intro q hq hunread
    by_cases hq' : q ∈ ps'
    · exact h'.read q hq' hunread
    · refine h.read q ((List.mem_append.mp hq).resolve_right hq') ?_
      obtain ⟨c, f, hc, hf, hparsed⟩ := hunread
      exact ⟨c, f, (h'.cell_eq q hq').symm.trans hc, hf, hparsed⟩
  case unread_iff =>
    intro q
    rw [h'.unread_iff, h.unread_iff, List.mem_append, not_or, and_assoc]

/-- Linking a reworded formula again leaves the rest as it was. -/
theorem relink (h : Reworded ps e e₁) {p : Position} (hp : p ∈ ps) : Reworded ps e (e₁.relink p) := by
  have hup := upToLinks_relink e₁ p
  have hne : ∀ q, q ∉ ps → q ≠ p := fun q hq heq => hq (heq ▸ hp)
  constructor
  case rest_eq =>
    rw [hup.unread_eq]
    have hrest := hup.rest_eq
    generalize e₁.relink p = e₂ at hrest ⊢
    rw [h.rest_eq] at hrest
    exact hrest
  case frame => exact hup.frame.trans h.frame
  case wellFormed => exact fun hw => hup.wellFormed (h.wellFormed hw)
  case symmetric => exact fun hg => isSymmetric_relink (h.symmetric hg) p
  case isSome_eq => exact fun q => (hup.isSome_cell? q).trans (h.isSome_eq q)
  case cell =>
    intro q c₂ hc₂
    obtain ⟨c₁, hc₁, heq⟩ := hup.cell? hc₂
    obtain ⟨c, hc, hdirty, horderly⟩ := h.cell q c₁ hc₁
    refine ⟨c, hc, ?_, fun ho => (horderly ho).of_unlinked heq⟩
    rw [← hdirty, ← Cell.flags_unlinked, heq, Cell.flags_unlinked]
  case cell_eq =>
    intro q hq
    rw [← h.cell_eq q hq]
    exact (link_relink_of_ne e₁ (hne q hq)).2
  case link_eq =>
    intro q hq
    rw [← h.link_eq q hq]
    exact (link_relink_of_ne e₁ (hne q hq)).1
  case read => exact fun q hq hunread => h.read q hq (isUnread_of_upToLinks hup hunread)
  case unread_iff =>
    intro q
    rw [hup.unread_eq]
    exact h.unread_iff q

theorem linkedAt (h : Reworded ps e e₁) {q : Position} (hq : q ∉ ps) (hlinked : e.LinkedAt q) :
    e₁.LinkedAt q := by
  have hlinkAt : e₁.linkAt q = e.linkAt q := by
    unfold linkAt
    rw [Workbook.tree?_eq_of_cell (h.cell_eq q hq), h.scope_eq]
  constructor
  · rw [h.link_eq q hq, hlinkAt]
    exact hlinked.link_eq
  · rw [Workbook.linkKind?_eq_of_cell (h.cell_eq q hq), hlinkAt]
    exact hlinked.kind_eq

theorem orderly (h : Reworded ps e e₁) (he : e.Orderly) : e₁.Orderly := by
  refine he.of_sameFrame h.settings_eq h.names_eq h.frame (h.wellFormed he.wellFormed)
    (h.symmetric he.symmetric) ?cells ?stored ?unread ?marked
  case cells =>
    intro q c₁ hc₁
    obtain ⟨c, hc, -, horderly⟩ := h.cell q c₁ hc₁
    exact horderly (he.cells q c hc)
  case stored =>
    intro q hq
    rw [h.dirty_eq] at hq
    rw [h.isSome_eq]
    exact he.stored q hq
  case unread =>
    intro q hq
    rw [h.dirty_eq]
    exact he.unread q ((h.unread_iff q).mp hq).1
  case marked =>
    intro hroomy q c₁ hc₁ hd
    rw [h.dirty_eq] at hd
    obtain ⟨c, hc, hdirty, -⟩ := h.cell q c₁ hc₁
    rw [hdirty]
    exact he.marked hroomy q c hc hd

end Reworded

/-- The text of one formula is replaced. -/
theorem reworded_replaceFormula (e : Engine) (p : Position) (text : String) :
    Reworded [p] e (e.replaceFormula p text) := by
  have hcell : ∀ q, (e.replaceFormula p text).workbook.cell? q =
      if q = p then (e.workbook.cell? p).map fun c => c.replaceFormula text (e.readFormula text)
      else e.workbook.cell? q := fun q => Workbook.cell?_modifyCell _ _ _ q
  constructor
  case rest_eq => rfl
  case frame => exact Workbook.sameFrame_modifyCell _ _ _
  case wellFormed => exact fun hw => hw.modifySheet _ _
  case symmetric => exact fun hg => hg
  case isSome_eq =>
    intro q
    rw [hcell]
    split
    · next hq => rw [hq, Option.isSome_map]
    · rfl
  case cell =>
    intro q c₁ hc₁
    rw [hcell] at hc₁
    split at hc₁
    · next hq =>
      obtain ⟨c, hc, rfl⟩ := Option.map_eq_some_iff.mp hc₁
      exact ⟨c, hq ▸ hc, c.dirty_replaceFormula _ _, fun ho => ho.replaceFormula text⟩
    · exact ⟨c₁, hc₁, rfl, fun ho => ho⟩
  case cell_eq =>
    intro q hq
    rw [hcell, if_neg fun heq => hq (List.mem_singleton.mpr heq)]
  case link_eq => exact fun q _ => rfl
  case read =>
    rintro q hq ⟨c₁, f, hc₁, hf, hparsed⟩
    rw [hcell, if_pos (List.mem_singleton.mp hq)] at hc₁
    obtain ⟨c, hc, rfl⟩ := Option.map_eq_some_iff.mp hc₁
    obtain ⟨content, value, flags⟩ := c
    cases content with
    | constant v => cases hf
    | formula f' =>
      cases hf
      cases hparsed
  case unread_iff =>
    intro q
    show q ∈ e.unread.erase p ↔ _
    rw [mem_erase_iff, List.mem_singleton, and_comm]

/-- The texts of several formulas are replaced. -/
theorem reworded_foldl (edits : List (Position × String)) (e : Engine) :
    Reworded (edits.map Prod.fst) e
      (edits.foldl (fun e (p, text) => e.replaceFormula p text) e) := by
  induction edits generalizing e with
  | nil => exact Reworded.refl e
  | cons edit edits ih => exact (reworded_replaceFormula e edit.1 edit.2).trans (ih _)

/-- The texts of several formulas are replaced, each of which is linked again. -/
theorem reworded_relinked (edits : List (Position × String)) (e : Engine) :
    Reworded (edits.map Prod.fst) e
        (edits.foldl (fun e (p, text) => (e.replaceFormula p text).relink p) e) ∧
      ∀ q ∈ edits.map Prod.fst,
        (edits.foldl (fun e (p, text) => (e.replaceFormula p text).relink p) e).LinkedAt q := by
  induction edits generalizing e with
  | nil => exact ⟨Reworded.refl e, fun _ hq => absurd hq List.not_mem_nil⟩
  | cons edit edits ih =>
    obtain ⟨p, text⟩ := edit
    obtain ⟨hrest, hlinked⟩ := ih ((e.replaceFormula p text).relink p)
    have hreplaced := reworded_replaceFormula e p text
    refine ⟨(hreplaced.relink List.mem_cons_self).trans hrest, fun q hq => ?_⟩
    by_cases hq' : q ∈ edits.map Prod.fst
    · exact hlinked q hq'
    · obtain rfl : q = p := (List.mem_cons.mp hq).resolve_right hq'
      exact hrest.linkedAt hq' (linkedAt_relink _ q (Or.inr (hreplaced.read q List.mem_cons_self)))

/-! ### A sheet that gets another name -/

section RenameSheet

variable {e : Engine} {id : SheetId} {name old : String} {w' : Workbook}

/-- A sheet with another name keeps its cells and its regions. -/
theorem sheet?_renameSheet (hrename : e.workbook.renameSheet id name = .ok (w', old)) (id' : SheetId) :
    (w'.sheet? id').map Sheet.cells = (e.workbook.sheet? id').map Sheet.cells ∧
      (w'.sheet? id').map Sheet.merges = (e.workbook.sheet? id').map Sheet.merges := by
  obtain ⟨-, -, rfl⟩ := Workbook.renameSheet_spec hrename
  rw [Workbook.sheet?_modifySheet]
  split
  · next hid =>
    rw [hid, Option.map_map, Option.map_map]
    exact ⟨rfl, rfl⟩
  · exact ⟨rfl, rfl⟩

theorem cell?_renameSheet (hrename : e.workbook.renameSheet id name = .ok (w', old)) :
    w'.cell? = e.workbook.cell? := by
  funext p
  have hcells := (sheet?_renameSheet hrename p.sheet).1
  unfold Workbook.cell?
  cases hs' : w'.sheet? p.sheet with
  | none =>
    rw [hs'] at hcells
    rw [Option.map_eq_none_iff.mp hcells.symm]
  | some s' =>
    rw [hs'] at hcells
    obtain ⟨s, hs, heq⟩ := Option.map_eq_some_iff.mp hcells.symm
    rw [hs, Option.bind_some, Option.bind_some]
    unfold Sheet.get?
    rw [heq]

theorem isObscured_renameSheet (hrename : e.workbook.renameSheet id name = .ok (w', old)) :
    w'.isObscured = e.workbook.isObscured := by
  funext p
  have hmerges := (sheet?_renameSheet hrename p.sheet).2
  unfold Workbook.isObscured
  cases hs' : w'.sheet? p.sheet with
  | none =>
    rw [hs'] at hmerges
    rw [Option.map_eq_none_iff.mp hmerges.symm]
  | some s' =>
    rw [hs'] at hmerges
    obtain ⟨s, hs, heq⟩ := Option.map_eq_some_iff.mp hmerges.symm
    rw [hs, Option.any_some, Option.any_some]
    unfold Sheet.isObscured Sheet.mergeAt?
    rw [heq]

theorem orderly_renameSheet (h : e.Consistent)
    (hrename : e.workbook.renameSheet id name = .ok (w', old)) :
    ({ e with workbook := w' } : Engine).Orderly := by
  refine h.toOrderly.withWorkbook ?_ (cell?_renameSheet hrename) ?_
  · obtain ⟨-, -, rfl⟩ := Workbook.renameSheet_spec hrename
    exact h.wellFormed.modifySheet _ _
  · intro hroomy id' s' hs'
    have hmerges := (sheet?_renameSheet hrename id').2
    rw [hs'] at hmerges
    obtain ⟨s, hs, heq⟩ := Option.map_eq_some_iff.mp hmerges.symm
    rw [← heq]
    exact h.apart hroomy id' s hs

/-- A reference that means something goes on to mean it, unless it names the sheet by its old name. -/
theorem resolve_renameSheet (hrename : e.workbook.renameSheet id name = .ok (w', old)) {r : Reference}
    (hr : requalify old name r = none) {home : SheetId} {a : Area} (ha : e.scope.resolve r home = .ok a) :
    ({ e with workbook := w' } : Engine).scope.resolve r home = .ok a := by
  have hsize : ({ e with workbook := w' } : Engine).scope.columns = e.scope.columns ∧
      ({ e with workbook := w' } : Engine).scope.rows = e.scope.rows := ⟨rfl, rfl⟩
  refine Scope.resolve_eq_ok_of_keeps hsize (fun n found hn hfound => ?_) (fun n area _ harea => ?_) ha
  · refine Workbook.sheetId?_renameSheet hrename (Bool.eq_false_iff.mpr fun hsame => ?_) hfound
    unfold requalify at hr
    rw [hn] at hr
    dsimp only at hr
    rw [if_pos hsame] at hr
    cases hr
  · have hcontains : w'.contains = e.workbook.contains := by
      funext id'
      have hcells := congrArg Option.isSome (sheet?_renameSheet hrename id').1
      rwa [Option.isSome_map, Option.isSome_map] at hcells
    unfold scope Workbook.scope at harea ⊢
    dsimp only at harea ⊢
    rw [hcontains]
    exact harea

theorem isPositional_of_requalify {r : Reference} {text : String} (h : requalify old name r = some text) :
    r.isPositional = true := by
  cases r with
  | cell sheet a => rfl
  | range sheet a b => rfl
  | name n => cases h

/-- A formula that is not reworded and goes on to mean something is untouched when a sheet gets another
name. -/
theorem untouched_renameSheet
    (hrename : e.workbook.renameSheet id name = .ok (w', old)) {e₁ : Engine} {ps : List Position}
    (hreworded : Reworded ps { e with workbook := w' } e₁)
    (hps : ∀ p, p ∉ ps → ∀ x, e.workbook.tree? p = some x → ∀ entry ∈ x.references,
      requalify old name entry.2 = none) {p : Position} (hp : p ∉ ps)
    (hresolved : (e.linkAt p).unresolved = false) : Untouched e e₁ p := by
  have hcell : e₁.workbook.cell? p = e.workbook.cell? p := by
    rw [hreworded.cell_eq p hp]
    exact congrFun (cell?_renameSheet hrename) p
  refine untouched_of_agree (Workbook.core?_eq_of_cell hcell) (Workbook.content?_eq_of_cell hcell)
    (hreworded.link_eq p hp) (fun x hx entry hentry => ?_) ?_ ?_
  · obtain ⟨a, ha⟩ := (unresolved_linkAt hx).mp hresolved entry hentry
    rw [hreworded.scope_eq]
    exact Scope.AgreeOn.of_ok ha (resolve_renameSheet hrename (hps p hp x hx entry hentry) ha)
  · rw [hreworded.dirty_eq]
  · rw [hreworded.unread_iff]
    exact and_iff_left hp

/-- **Another name for a sheet is an edit** whose seeds are the formulas that are reworded and those that
are unresolved. -/
theorem edit_renameSheet (h : e.Consistent) (hrename : e.workbook.renameSheet id name = .ok (w', old))
    {e₁ : Engine} {ps : List Position} (hreworded : Reworded ps { e with workbook := w' } e₁)
    (hrelinked : ∀ q ∈ ps, e₁.LinkedAt q)
    (hps : ∀ p, p ∉ ps → ∀ x, e.workbook.tree? p = some x → ∀ entry ∈ x.references,
      requalify old name entry.2 = none) :
    Edit some e e₁ e₁.graph.unresolved.toList (ps ++ e₁.graph.unresolved.toList) := by
  have hcell : ∀ p, p ∉ ps → e₁.workbook.cell? p = e.workbook.cell? p := fun p hp =>
    (hreworded.cell_eq p hp).trans (congrFun (cell?_renameSheet hrename) p)
  have hmem : ∀ p, p ∉ ps → (p ∈ e₁.graph.unresolved.toList ↔ (e.linkAt p).unresolved = true) := by
    intro p hp
    rw [mem_unresolved_iff_link, hreworded.link_eq p hp, ← (h.linked p).link_eq]
  refine Edit.inPlace (fun p => p ∈ ps ∨ p ∈ e₁.graph.unresolved.toList) h hreworded.settings_eq
    (by rw [hreworded.rest_eq]) (hreworded.orderly (orderly_renameSheet h hrename))
    (fun p c₁ hc₁ hflag => ?_) (fun p hp => ?_) (fun p hp => Or.inl (List.mem_append.mpr hp))
    (fun p hp => ?_) (fun _ p q _ _ => ?_)
  · obtain ⟨c, hc, hdirty, -⟩ := hreworded.cell p c₁ hc₁
    have hc : w'.cell? p = some c := hc
    rw [cell?_renameSheet hrename] at hc
    rw [hreworded.dirty_eq]
    exact Or.inl (h.flagged p c hc (hdirty ▸ hflag))
  · by_cases hps : p ∈ ps
    · exact Or.inl (hrelinked p hps)
    · refine Or.inr ⟨hp.resolve_left hps, not_isUnread_of_tree ?_⟩
      rw [show e₁.workbook.tree? p = e.workbook.tree? p by unfold Workbook.tree?; rw [hcell p hps]]
      refine isSome_tree_of_link (h.linked p) fun hlink => ?_
      have hunresolved := (hmem p hps).mp (hp.resolve_left hps)
      rw [← (h.linked p).link_eq, hlink] at hunresolved
      cases hunresolved
  · rw [not_or] at hp
    refine untouched_renameSheet hrename hreworded hps hp.1 ?_
    exact Bool.eq_false_iff.mpr fun hunresolved => hp.2 ((hmem p hp.1).mpr hunresolved)
  · rw [hreworded.frame.isObscured_eq]
    exact congrFun (isObscured_renameSheet hrename) q

/-- With the name that a sheet has, the sheets keep their names. -/
theorem sheetName_renameSheet_self (hrename : e.workbook.renameSheet id name = .ok (w', name)) (id' : SheetId) :
    (w'.sheet? id').map Sheet.name = (e.workbook.sheet? id').map Sheet.name := by
  obtain ⟨-, ⟨s, hs, hname⟩, rfl⟩ := Workbook.renameSheet_spec hrename
  rw [Workbook.sheet?_modifySheet]
  split
  · next hid =>
    rw [hid, hs]
    exact congrArg some hname.symm
  · rfl

/-- With the name that a sheet has, references mean what they meant. -/
theorem scope_renameSheet_self (hrename : e.workbook.renameSheet id name = .ok (w', name)) :
    ({ e with workbook := w' } : Engine).scope = e.scope := by
  refine Workbook.scope_eq_of_names ?_ (sheetName_renameSheet_self hrename) _ _
  obtain ⟨-, -, rfl⟩ := Workbook.renameSheet_spec hrename
  exact Workbook.order_modifySheet _ _ _

/-- A sheet that gets the name it has stays as it was. -/
theorem edit_renameSheet_self (h : e.Consistent)
    (hrename : e.workbook.renameSheet id name = .ok (w', name)) :
    Edit some e { e with workbook := w' } [] [] := by
  have hcell := cell?_renameSheet hrename
  have hscope := scope_renameSheet_self hrename
  refine Edit.inPlace (fun _ => False) h rfl rfl (orderly_renameSheet h hrename)
    (fun p c hc hflag => Or.inl (h.flagged p c (congrFun hcell p ▸ hc) hflag)) (fun _ hp => hp.elim)
    (fun _ hp => hp.elim) (fun p _ => ?_) fun _ _ q _ _ => congrFun (isObscured_renameSheet hrename) q
  exact untouched_of_scope hscope (Workbook.core?_eq_of_cell (congrFun hcell p))
    (Workbook.content?_eq_of_cell (congrFun hcell p)) rfl Iff.rfl Iff.rfl

end RenameSheet

/-- A formula that is not reworded does not read from the sheet by its name. -/
theorem not_namesSheetOf_renamed {e : Engine} {id : SheetId} {name old : String} {w' : Workbook}
    (hrename : e.workbook.renameSheet id name = .ok (w', old)) {reader p : Position}
    (hrequalify : ∀ x, e.workbook.tree? reader = some x → ∀ entry ∈ x.references, requalify old name entry.2 = none)
    (hp : p.sheet = id) : ¬e.NamesSheetOf reader p := by
  rintro ⟨x, hx, entry, hentry, hnamed, a, ha, hcovers⟩
  obtain ⟨n, hn⟩ := Option.isSome_iff_exists.mp hnamed
  have hfound : e.workbook.sheetId? n = some a.sheet := (Scope.sheet_of_resolve ha).1 n hn
  obtain ⟨⟨s, hs, hname⟩, -⟩ := Workbook.sheetId?_eq_some.mp hfound
  obtain ⟨-, ⟨s', hs', hold⟩, -⟩ := Workbook.renameSheet_spec hrename
  rw [((Area.covers_iff a p).mp hcovers).1, hp, hs'] at hs
  cases hs
  have hnone := hrequalify x hx entry hentry
  unfold requalify at hnone
  rw [hn] at hnone
  dsimp only at hnone
  rw [if_pos (Text.sameName_symm (hold ▸ hname))] at hnone
  cases hnone

/-- **Another name for a sheet changes what errors tell of it**, and nothing else about errors up to their
kinds. The formulas that name the sheet are dirty then. -/
theorem revised_renameSheet {e : Engine} (h : e.Consistent) {id : SheetId} {name old : String} {w' : Workbook}
    (hrename : e.workbook.renameSheet id name = .ok (w', old)) {e₁ : Engine} {ps : List Position}
    (hreworded : Reworded ps { e with workbook := w' } e₁) (hrelinked : ∀ q ∈ ps, e₁.LinkedAt q)
    (hps : ∀ p, p ∉ ps → ∀ x, e.workbook.tree? p = some x → ∀ entry ∈ x.references,
      requalify old name entry.2 = none) :
    Revised ErrorValue.sameKind (· = id) e
      ((e₁.relinkAll e₁.graph.unresolved.toList).markDirty (ps ++ e₁.graph.unresolved.toList)) := by
  have hedit := edit_renameSheet h hrename hreworded hrelinked hps
  refine ⟨hedit.consistent, ⟨some, hedit.change.faithful h hedit.consistent⟩, fun reader p hclean hreads => ?_⟩
  by_cases hp : p.sheet = id
  · have hwould := hedit.reads_iff.mp hreads
    obtain ⟨hd, hs⟩ := hedit.clean_of_after (isSome_of_wouldRead hwould) hclean
    obtain ⟨source, himage, ha, -⟩ := hedit.source reader (isSome_of_wouldRead hwould) hd hs
    obtain rfl : reader = source := (Option.some.inj himage).symm
    have hwould₀ : e.WouldRead reader p := by
      unfold WouldRead at hwould ⊢
      rw [ha.linkAt_eq] at hwould
      exact hwould
    refine Or.inr ⟨hp, fun hnames => ?_⟩
    exact not_namesSheetOf_renamed hrename (hps reader fun hmem => hs (List.mem_append_left _ hmem)) hp
      (((hedit.alike_after ha).namesSheetOf_iff hwould₀).mp hnames)
  · left
    rw [(hedit.finished.2.frame.trans (upToLinks_relinkAll e₁ _).frame).sheetName_eq, hreworded.frame.sheetName_eq]
    obtain ⟨-, -, rfl⟩ := Workbook.renameSheet_spec hrename
    show ((e.workbook.modifySheet id _).sheet? p.sheet).map Sheet.name = _
    rw [Workbook.sheet?_modifySheet, if_neg hp]

theorem changesTo_renameSheet {e : Engine} (h : e.Consistent) (id : SheetId) (name : String) :
    ChangesTo ErrorValue.sameKind (· = id) e (e.renameSheet id name).engine := by
  refine changesTo_perform h fun ⟨w', old⟩ hrename => ?_
  dsimp only
  split
  · next hsame =>
    subst hsame
    have hedit := edit_renameSheet_self h hrename
    have hrevised : Revised ErrorValue.sameKind (· = id) e (({ e with workbook := w' } : Engine).markDirty []) :=
      hedit.revised (fun _ hp => absurd hp List.not_mem_nil) fun id' _ _ => sheetName_renameSheet_self hrename id'
    rw [markDirty_nil] at hrevised
    exact hrevised.changesTo
  · obtain ⟨hreworded, hrelinked⟩ := reworded_relinked
      (({ e with workbook := w' } : Engine).editedFormulas fun _ r => requalify old name r)
      { e with workbook := w' }
    refine (revised_renameSheet h hrename hreworded hrelinked fun p hp x hx entry hentry => ?_).changesTo_afterEdit
    by_contra hne
    obtain ⟨new, hnew⟩ := Option.ne_none_iff_exists'.mp hne
    have htree : w'.tree? p = e.workbook.tree? p :=
      Workbook.tree?_eq_of_cell (congrFun (cell?_renameSheet hrename) p)
    exact hp (mem_editedFormulas (orderly_renameSheet h hrename) (htree.trans hx) hentry
      (isPositional_of_requalify hnew) hnew)

end Engine

end Spreadsheet
