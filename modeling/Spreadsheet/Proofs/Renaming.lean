import Spreadsheet.Proofs.Matching
import Spreadsheet.Proofs.Naming
import Spreadsheet.Proofs.Retargeting

/-!
# Renaming: another name for a sheet changes no meaning

A rename exchanges qualifiers in the texts of formulas. The qualifiers with the old name, in whatever case
and with or without quotes, all meant the renamed sheet, since no other sheet has the name; with the new name
in their place they mean it again. So a formula reads what it read, and nothing but its text changes
(`Reachable.renamesOnly`).

An operand keeps its place among the other tokens whatever the new name is, because a name with characters
that have a meaning in formulas is quoted. This goes wrong if the separator of arguments is a character of
plain names (`not_renamesOnly_letter`).
-/

namespace Spreadsheet

open DependencyGraph

/-! ### References with another qualifier -/

/-- A reference with a new name in place of an old one, in whatever case it has that one. With the very same
name nothing changes. -/
def Reference.renamed (old new : String) (r : Reference) : Reference :=
  if old = new then r
  else
    match r.sheet? with
    | some sheet => if Text.sameName sheet old then r.withSheet (some new) else r
    | none => r

/-- A text that differs from another one only in operands that are qualified by an old name, in any case,
and have a new one in its place. -/
def QualifiersExchanged (l : Locale) (old new text text' : String) : Prop :=
  text' = text ∨ ∃ ts, tokenize l text = .ok ts ∧
    Exchanged (fun t cs => t ∈ ts ∧ ∃ r sheet, t.Writes r ∧ r.sheet? = some sheet ∧
      Text.sameName sheet old = true ∧ String.ofList cs = (r.withSheet (some new)).text)
      0 text.toList text'.toList

namespace Engine

section Requalify

variable {old new : String} {r : Reference}

theorem requalify_eq_some {text : String} :
    requalify old new r = some text ↔ ∃ sheet, r.sheet? = some sheet ∧ Text.sameName sheet old = true ∧
      text = (r.withSheet (some new)).text := by
  unfold requalify
  cases r.sheet? with
  | none => exact ⟨fun h => (by cases h), fun ⟨_, h, _⟩ => (by cases h)⟩
  | some sheet =>
    dsimp only
    split
    · next hsame =>
      refine ⟨fun h => ⟨sheet, rfl, hsame, (Option.some.inj h).symm⟩, ?_⟩
      rintro ⟨_, -, -, rfl⟩
      rfl
    · next hsame =>
      refine ⟨fun h => (by cases h), ?_⟩
      rintro ⟨_, ⟨⟩, hsame', -⟩
      exact absurd hsame' hsame

theorem renamed_self (name : String) (r : Reference) : r.renamed name name = r := if_pos rfl

theorem renamed_of_requalify (hne : old ≠ new) {text : String} (h : requalify old new r = some text) :
    r.renamed old new = r.withSheet (some new) := by
  obtain ⟨sheet, hsheet, hsame, -⟩ := requalify_eq_some.mp h
  unfold Reference.renamed
  rw [if_neg hne, hsheet]
  exact if_pos hsame

theorem renamed_of_requalify_none (h : requalify old new r = none) : r.renamed old new = r := by
  unfold requalify at h
  unfold Reference.renamed
  by_cases hne : old = new
  · exact if_pos hne
  · rw [if_neg hne]
    cases hsheet : r.sheet? with
    | none => rfl
    | some sheet =>
      rw [hsheet] at h
      dsimp only at h ⊢
      by_cases hsame : Text.sameName sheet old = true
      · rw [if_pos hsame] at h
        cases h
      · exact if_neg hsame

/-- A reference can be written with any name that is not empty. -/
theorem isWritable_withSheet (hnew : new ≠ "") (h : r.IsWritable) : (r.withSheet (some new)).IsWritable := by
  have hsheet : some new ≠ some "" := fun heq => hnew (Option.some.inj heq)
  cases r with
  | cell sheet a => exact ⟨hsheet, h.2⟩
  | range sheet a b => exact ⟨hsheet, h.2⟩
  | name n => exact h

theorem isPositional_withSheet (sheet : Option String) : (r.withSheet sheet).isPositional = r.isPositional := by
  cases r <;> rfl

theorem answersReferences_requalify (hnew : new ≠ "") : AnswersReferences (requalify old new) := by
  intro r hpositional hwritable text htext
  obtain ⟨-, -, -, rfl⟩ := requalify_eq_some.mp htext
  exact Or.inr ⟨_, (isPositional_withSheet _).trans hpositional, isWritable_withSheet hnew hwritable, rfl⟩

/-- The new texts of references are those of the renamed references. -/
theorem writes_requalify (hne : old ≠ new) (hnew : new ≠ "") (h : r.IsWritable) :
    Expr.Writes (requalify old new) (Reference.renamed old new) r := by
  cases hedit : requalify old new r with
  | none => exact Or.inl ⟨fun _ => hedit, renamed_of_requalify_none hedit⟩
  | some text =>
    rw [Expr.Writes, renamed_of_requalify hne hedit]
    refine Or.inr ⟨isPositional_of_requalify hedit, ?_, isWritable_withSheet hnew h⟩
    obtain ⟨-, -, -, rfl⟩ := requalify_eq_some.mp hedit
    exact hedit

end Requalify

/-! ### What a renamed reference means -/

theorem ne_empty_of_renameSheet {w w' : Workbook} {id : SheetId} {name old : String}
    (h : w.renameSheet id name = .ok (w', old)) : name ≠ "" := by
  rintro rfl
  have hrefused : checkSheetName "" = .error (.invalidSheetName "") := by decide +kernel
  unfold Workbook.renameSheet at h
  rw [hrefused] at h
  cases h

section Meaning

variable {e : Engine} {id : SheetId} {name old : String} {w' : Workbook}

/-- **A renamed reference means what the old one meant.** -/
theorem resolve_renamed (h : e.Consistent) (hdistinct : e.workbook.NamesDistinct)
    (hrename : e.workbook.renameSheet id name = .ok (w', old)) {r : Reference} {home : SheetId} {a : Area}
    (ha : e.scope.resolve r home = .ok a) :
    ({ e with workbook := w' } : Engine).scope.resolve (r.renamed old name) home = .ok a := by
  by_cases hne : old = name
  · subst hne
    rw [renamed_self, scope_renameSheet_self hrename]
    exact ha
  cases hedit : requalify old name r with
  | none =>
    rw [renamed_of_requalify_none hedit]
    exact resolve_renameSheet hrename hedit ha
  | some text =>
    obtain ⟨sheet, hsheet, hsame, -⟩ := requalify_eq_some.mp hedit
    rw [renamed_of_requalify hne hedit]
    have hfound : e.workbook.sheetId? sheet = some id := by
      obtain ⟨-, ⟨s, hs, rfl⟩, -⟩ := Workbook.renameSheet_spec hrename
      exact Workbook.sheetId?_of_isNamed h.wellFormed hdistinct ⟨s, hs, Text.sameName_symm hsame⟩
    have hfound' : w'.sheetId? name = some id := by
      have hdistinct' := hdistinct.renameSheet h.wellFormed hrename
      obtain ⟨-, ⟨s, hs, -⟩, rfl⟩ := Workbook.renameSheet_spec hrename
      refine Workbook.sheetId?_of_isNamed (h.wellFormed.modifySheet _ _) hdistinct' ⟨{ s with name }, ?_, ?_⟩
      · rw [Workbook.sheet?_modifySheet, if_pos rfl, hs]
        rfl
      · exact Text.sameName_refl name
    have hqualified : e.scope.qualified? home (some sheet) = some id := hfound
    have hqualified' : ({ e with workbook := w' } : Engine).scope.qualified? home (some name) = some id := hfound'
    cases r with
    | cell _ address =>
      obtain rfl : _ = some sheet := hsheet
      obtain ⟨found, hmeant, hin, rfl⟩ := Scope.resolve_cell.mp ha
      obtain rfl : id = found := Option.some.inj (hqualified.symm.trans hmeant)
      exact Scope.resolve_cell.mpr ⟨id, hqualified', hin, rfl⟩
    | range _ first last =>
      obtain rfl : _ = some sheet := hsheet
      obtain ⟨found, hmeant, hin, rfl⟩ := Scope.resolve_range.mp ha
      obtain rfl : id = found := Option.some.inj (hqualified.symm.trans hmeant)
      exact Scope.resolve_range.mpr ⟨id, hqualified', hin, rfl⟩
    | name _ => cases hsheet

end Meaning

/-! ### The engine after a rename -/

/-- An engine in which a sheet got another name and nothing got another meaning. -/
structure RenamesOnly (e e' : Engine) (id : SheetId) (old new : String) : Prop where
  /-- Texts of formulas change in the qualifiers with the old name only. -/
  texts : ∀ p text, e.formula? p = some text →
    ∃ text', e'.formula? p = some text' ∧ QualifiersExchanged e.settings.locale old new text text'
  /-- A formula that could be resolved still can, reads what it read, and has the same tree up to these
  qualifiers. -/
  resolved : ∀ p c f x, e.workbook.cell? p = some c → c.content = .formula f → f.parsed = some (.ok x) →
    p ∉ e.graph.unresolved →
      ∃ c' f' y, e'.workbook.cell? p = some c' ∧ c'.content = .formula f' ∧ f'.parsed = some (.ok y) ∧
        y.bare = (x.mapReferences (Reference.renamed old new)).bare ∧
        f'.linkError = none ∧ p ∉ e'.graph.unresolved ∧ e'.graph.precedentsOf p = e.graph.precedentsOf p
  /-- The same cells are stored, and show the same values. -/
  stored : ∀ p, (e'.workbook.cell? p).isSome = (e.workbook.cell? p).isSome
  value : e'.workbook.value = e.workbook.value
  /-- No other sheet gets another name, and regions and named areas stay. -/
  sheetNames : ∀ id', e'.sheetName? id' = if id' = id then some new else e.sheetName? id'
  merges : ∀ id', (e'.workbook.sheet? id').map Sheet.merges = (e.workbook.sheet? id').map Sheet.merges
  names : e'.names = e.names

section Rename

variable {e : Engine} {id : SheetId} {name old : String} {w' : Workbook}

/-- The formulas whose texts a rename changes, with their new texts. -/
def requalified (e : Engine) (old name : String) : List (Position × String) :=
  e.editedFormulas fun _ r => requalify old name r

/-- The engine after a rename, before anything that could not be resolved is linked again. -/
def reworded (e : Engine) (w' : Workbook) (old name : String) : Engine :=
  if old = name then { e with workbook := w' }
  else
    (({ e with workbook := w' } : Engine).requalified old name).foldl
      (fun e entry => (e.replaceFormula entry.1 entry.2).relink entry.1) { e with workbook := w' }

theorem reworded_spec (e : Engine) (w' : Workbook) (old name : String) :
    Reworded (if old = name then [] else (({ e with workbook := w' } : Engine).requalified old name).map Prod.fst)
      { e with workbook := w' } (e.reworded w' old name) := by
  unfold reworded
  split
  · exact Reworded.refl _
  · exact (reworded_relinked _ _).1

/-- What a rename ends with changes links and marks only. -/
theorem renameSheet_eq (hmanual : e.settings.autoRecalculate = false)
    (hrename : e.workbook.renameSheet id name = .ok (w', old)) :
    ∃ ps seeds, (e.renameSheet id name).engine = ((e.reworded w' old name).relinkAll ps).markDirty seeds := by
  have hsettings := (reworded_spec e w' old name).settings_eq
  unfold renameSheet edit reworded at *
  rw [hrename, perform_ok]
  dsimp only
  split
  · next hsame => exact ⟨[], [], (markDirty_nil _).symm⟩
  · next hsame =>
    rw [if_neg hsame] at hsettings
    exact ⟨_, _, relinked_of_manual ((congrArg Settings.autoRecalculate hsettings).trans hmanual) _ _⟩

section Renamed

variable (h : e.Consistent) (hmanual : e.settings.autoRecalculate = false)
  (hrename : e.workbook.renameSheet id name = .ok (w', old))
include h hmanual hrename

theorem core?_renamed (p : Position) :
    (e.renameSheet id name).engine.workbook.core? p = (e.reworded w' old name).workbook.core? p := by
  obtain ⟨ps, seeds, heq⟩ := renameSheet_eq hmanual hrename
  have hsymmetric := isSymmetric_relinkAll ((reworded_spec e w' old name).symmetric h.symmetric) ps
  rw [heq, (markedBy_markDirty hsymmetric seeds).core?_eq, (upToLinks_relinkAll _ ps).core?_eq]

theorem frame_renamed : (e.renameSheet id name).engine.workbook.SameFrame w' := by
  obtain ⟨ps, seeds, heq⟩ := renameSheet_eq hmanual hrename
  have hreworded := reworded_spec e w' old name
  have hsymmetric := isSymmetric_relinkAll (hreworded.symmetric h.symmetric) ps
  rw [heq]
  exact ((markedBy_markDirty hsymmetric seeds).frame.trans (upToLinks_relinkAll _ ps).frame).trans hreworded.frame

theorem names_renamed : (e.renameSheet id name).engine.names = e.names := by
  obtain ⟨ps, seeds, heq⟩ := renameSheet_eq hmanual hrename
  have hreworded := reworded_spec e w' old name
  have hsymmetric := isSymmetric_relinkAll (hreworded.symmetric h.symmetric) ps
  rw [heq, (markedBy_markDirty hsymmetric seeds).names_eq, (upToLinks_relinkAll _ ps).names_eq, hreworded.names_eq]

theorem scope_renamed :
    (e.renameSheet id name).engine.scope = ({ e with workbook := w' } : Engine).scope := by
  have hsettings := ((changesTo_renameSheet h id name).follows h).settings_eq
  unfold scope
  rw [names_renamed h hmanual hrename, hsettings]
  exact (frame_renamed h hmanual hrename).scope_eq e.names e.settings

/-- A rename stores no cell and takes none away. -/
theorem isSome_renamed (p : Position) :
    ((e.renameSheet id name).engine.workbook.cell? p).isSome = (e.workbook.cell? p).isSome := by
  rw [← Workbook.isSome_core?, core?_renamed h hmanual hrename, Workbook.isSome_core?,
    (reworded_spec e w' old name).isSome_eq, cell?_renameSheet hrename]

/-- A rename changes no value. -/
theorem value_renamed (p : Position) : (e.renameSheet id name).engine.workbook.value p = e.workbook.value p := by
  rw [Workbook.value_eq_core, core?_renamed h hmanual hrename, ← Workbook.value_eq_core]
  have hvalue : ({ e with workbook := w' } : Engine).workbook.value p = e.workbook.value p := by
    rw [Workbook.value_eq, Workbook.value_eq, cell?_renameSheet hrename]
  refine Eq.trans ?_ hvalue
  unfold reworded
  split
  · rfl
  · exact value_foldl_rewords rewords_relinked _ _ p

/-- Of the sheets only the renamed one gets another name. -/
theorem sheetName?_renamed {s : Sheet} (hs : e.workbook.sheet? id = some s) (id' : SheetId) :
    (e.renameSheet id name).engine.sheetName? id' = if id' = id then some name else e.sheetName? id' := by
  unfold sheetName?
  rw [(frame_renamed h hmanual hrename).sameNames.name_eq]
  obtain ⟨-, -, rfl⟩ := Workbook.renameSheet_spec hrename
  rw [Workbook.sheet?_modifySheet, hs]
  split <;> rfl

/-- The merged regions of all sheets stay. -/
theorem merges_renamed (id' : SheetId) : ((e.renameSheet id name).engine.workbook.sheet? id').map Sheet.merges =
    (e.workbook.sheet? id').map Sheet.merges := by
  have hmerges := congrArg (Option.map Prod.snd) (congrFun (frame_renamed h hmanual hrename).frame_eq id')
  unfold Workbook.frame at hmerges
  rw [Option.map_map, Option.map_map] at hmerges
  exact hmerges.trans (sheet?_renameSheet hrename id').2

/-- What a formula reads stays when all its references could be resolved, and so can the renamed ones. -/
theorem link_renamed (hdistinct : e.workbook.NamesDistinct) {p : Position} (hp : (e.linkAt p).unresolved = false)
    {x y : Expr} (hx : e.workbook.tree? p = some x) (hy : (e.renameSheet id name).engine.workbook.tree? p = some y)
    (hsame : y.bare = (x.mapReferences (Reference.renamed old name)).bare) :
    ((e.renameSheet id name).engine.linkAt p).areas = (e.linkAt p).areas ∧
      ((e.renameSheet id name).engine.linkAt p).unresolved = false := by
  have htargets : y.targets = x.targets.map (Reference.renamed old name) := by
    rw [Expr.targets_eq_of_bare hsame, Expr.targets_mapReferences]
  -- One by one the references mean what they meant.
  have hmeans : ∀ r ∈ x.targets, ∃ a, e.scope.resolve r p.sheet = .ok a ∧
      (e.renameSheet id name).engine.scope.resolve (r.renamed old name) p.sheet = .ok a := by
    intro r hr
    obtain ⟨written, hentry⟩ := Expr.mem_targets.mp hr
    obtain ⟨a, ha⟩ := (unresolved_linkAt hx).mp hp _ hentry
    refine ⟨a, ha, ?_⟩
    rw [scope_renamed h hmanual hrename]
    exact resolve_renamed h hdistinct hrename ha
  have hresolve := resolveAll_eq_of_targets htargets hmeans
  rw [linkAt_of_tree hx] at hp ⊢
  rw [linkAt_of_tree hy]
  unfold linkOf at hp ⊢
  rw [hresolve]
  exact ⟨rfl, hp⟩

/-- A formula after a rename is read from the text that the edit of its qualifiers gives. With the very same
name nothing is edited. -/
theorem formula_renamed {p : Position} {c : Cell} (hc : e.workbook.cell? p = some c) {f : Formula}
    (hf : c.content = .formula f) :
    ∃ c' f', (e.renameSheet id name).engine.workbook.cell? p = some c' ∧ c'.content = .formula f' ∧
      ((old = name ∧ f'.text = f.text ∧ f'.parsed = f.parsed) ∨
        (old ≠ name ∧ f.EditedTo e.settings.locale e.readFormula (requalify old name) f')) := by
  let e₀ : Engine := { e with workbook := w' }
  have hc₀ : e₀.workbook.cell? p = some c := (congrFun (cell?_renameSheet hrename) p).trans hc
  have hcore₀ : e₀.workbook.core? p = some c.core := congrArg (Option.map Cell.core) hc₀
  have hcore := core?_renamed h hmanual hrename p
  obtain ⟨c', hc'⟩ : ∃ c', (e.renameSheet id name).engine.workbook.cell? p = some c' := by
    rw [← Option.isSome_iff_exists, ← Workbook.isSome_core?, hcore, Workbook.isSome_core?,
      (reworded_spec e w' old name).isSome_eq]
    exact Option.isSome_iff_exists.mpr ⟨c, hc₀⟩
  have hcore' : (e.reworded w' old name).workbook.core? p = some c'.core :=
    hcore.symm.trans (congrArg (Option.map Cell.core) hc')
  by_cases hne : old = name
  · unfold reworded at hcore'
    rw [if_pos hne, hcore₀] at hcore'
    obtain ⟨problem, hf'⟩ := Cell.exists_formula_of_core (Option.some.inj hcore').symm hf
    exact ⟨c', _, hc', hf', Or.inl ⟨hne, rfl, rfl⟩⟩
  · unfold reworded at hcore'
    rw [if_neg hne] at hcore'
    obtain ⟨f', hf', hedited⟩ := exists_formula_of_foldl rewords_relinked hcore₀ hf
      (mem_editedFormulas_of_formula (orderly_renameSheet h hrename).wellFormed hc₀ hf) hcore'
    exact ⟨c', f', hc', hf', Or.inr ⟨hne, hedited⟩⟩

end Renamed

section Formulas

variable (h : e.Consistent) (hlocale : e.settings.locale.IsUnambiguous)
  (hmanual : e.settings.autoRecalculate = false)
  (hrename : e.workbook.renameSheet id name = .ok (w', old))
include h hlocale hmanual hrename

/-- The text of a formula changes in the qualifiers with the old name. -/
theorem texts_renamed {p : Position} {text : String} (htext : e.formula? p = some text) :
    ∃ text', (e.renameSheet id name).engine.formula? p = some text' ∧
      QualifiersExchanged e.settings.locale old name text text' := by
  obtain ⟨c, hc, htext⟩ := Option.bind_eq_some_iff.mp htext
  obtain ⟨f, hf, rfl⟩ := Option.map_eq_some_iff.mp htext
  obtain ⟨c', f', hc', hf', hcases⟩ :=
    formula_renamed h hmanual hrename hc (Cell.formula?_eq_some.mp hf)
  refine ⟨f'.text, ?_, ?_⟩
  · unfold formula? cell?
    rw [hc']
    exact congrArg (Option.map Formula.text) (Cell.formula?_eq_some.mpr hf')
  · rcases hcases with ⟨-, hsame, -⟩ | ⟨-, ⟨hsame, -, -⟩ | ⟨hedited, -⟩⟩
    · exact Or.inl hsame
    · exact Or.inl hsame
    · obtain ⟨_, _, -, htokens⟩ := exists_of_editReferences hedited
      obtain ⟨ts, htokens, hexchanged⟩ := touched_of_editReferences (hlocale.hasPlainSeparator htokens) hedited
      refine Or.inr ⟨ts, htokens, hexchanged.mono fun t cs => ?_⟩
      rintro ⟨ht, r, hwrites, -, hedit⟩
      obtain ⟨sheet, hsheet, hsame, hcs⟩ := requalify_eq_some.mp hedit
      exact ⟨ht, r, sheet, hwrites, hsheet, hsame, hcs⟩

/-- The tree of a formula has the new name in the references that had the old one. -/
theorem tree_renamed {p : Position} {c : Cell} (hc : e.workbook.cell? p = some c) {f : Formula}
    (hf : c.content = .formula f) {x : Expr} (hx : f.parsed = some (.ok x)) :
    ∃ c' f' y, (e.renameSheet id name).engine.workbook.cell? p = some c' ∧ c'.content = .formula f' ∧
      f'.parsed = some (.ok y) ∧ y.bare = (x.mapReferences (Reference.renamed old name)).bare := by
  obtain ⟨c', f', hc', hf', ⟨rfl, -, hsame⟩ | ⟨hne, hedited⟩⟩ := formula_renamed h hmanual hrename hc hf
  · refine ⟨c', f', x, hc', hf', hsame.trans hx, (Expr.bare_mapReferences_eq_self fun r _ => ?_).symm⟩
    exact renamed_self old r
  · have hread := (h.cells p c hc).read_eq hf hx
    have hname := ne_empty_of_renameSheet hrename
    obtain ⟨y, hy, hsame⟩ := exists_tree_of_editedTo hlocale hread hx (answersReferences_requalify hname)
      (fun r hr => writes_requalify hne hname (Expr.isWritable_of_mem_targets (readFormula_eq_ok.mp hread) hr)) hedited
    exact ⟨c', f', y, hc', hf', hy, hsame⟩

end Formulas

end Rename

/-- A rename that is accepted is one of the workbook. -/
theorem exists_renamed_of_accepted {e : Engine} {id : SheetId} {s : Sheet} (hs : e.workbook.sheet? id = some s)
    {name : String} (haccepted : (e.renameSheet id name).result = .ok ()) :
    ∃ w', e.workbook.renameSheet id name = .ok (w', s.name) := by
  cases hrename : e.workbook.renameSheet id name with
  | error problem =>
    unfold renameSheet edit at haccepted
    rw [hrename, perform_error] at haccepted
    cases haccepted
  | ok renamed =>
    obtain ⟨-, ⟨s', hs', hname⟩, -⟩ := Workbook.renameSheet_spec hrename
    rw [hs] at hs'
    cases hs'
    exact ⟨renamed.1, by rw [hname]⟩

/-- **A rename changes no meaning**: in every reachable engine that makes no passes by itself, in a locale
whose separator has no other meaning in formulas. -/
theorem Reachable.renamesOnly {library : Library} {e : Engine} (h : Reachable library e)
    (hlocale : e.settings.locale.IsUnambiguous) (hmanual : e.settings.autoRecalculate = false) {id : SheetId}
    {s : Sheet} (hs : e.workbook.sheet? id = some s) {name : String}
    (haccepted : (e.renameSheet id name).result = .ok ()) :
    RenamesOnly e (e.renameSheet id name).engine id s.name name := by
  have hconsistent := h.consistent
  have hlinked := (changesTo_renameSheet hconsistent id name).consistent.linked
  obtain ⟨w', hrename⟩ := exists_renamed_of_accepted hs haccepted
  constructor
  case texts =>
    intro p text htext
    exact texts_renamed hconsistent hlocale hmanual hrename htext
  case resolved =>
    intro p c f x hc hf hx hp
    obtain ⟨c', f', y, hc', hf', hy, hsame⟩ := tree_renamed hconsistent hlocale hmanual hrename hc hf hx
    obtain ⟨hareas, hresolved⟩ := link_renamed hconsistent hmanual hrename h.namesDistinct
      (resolved_of_not_mem (hconsistent.linked p) hp) (Workbook.tree?_of_cell hc hf hx)
      (Workbook.tree?_of_cell hc' hf' hy) hsame
    refine ⟨c', f', y, hc', hf', hy, hsame, ?_, not_mem_unresolved (hlinked p) hresolved, ?_⟩
    · have hkind := (hlinked p).kind_eq
      rw [hresolved, Workbook.linkKind?_of_cell hc' hf'] at hkind
      exact Option.map_eq_none_iff.mp hkind
    · rw [precedentsOf_eq (hlinked p), precedentsOf_eq (hconsistent.linked p), hareas]
  case stored => exact isSome_renamed hconsistent hmanual hrename
  case value => exact funext (value_renamed hconsistent hmanual hrename)
  case sheetNames => exact sheetName?_renamed hconsistent hmanual hrename hs
  case merges => exact merges_renamed hconsistent hmanual hrename
  case names => exact names_renamed hconsistent hmanual hrename

/-- Calls that leave formulas with the name of the first sheet: in another case, in front of a range, and next
to the name of another sheet. -/
def qualifiedFormulas : List Call :=
  [.addSheet "S", .addSheet "Data", .setFormula firstSheet (.plain 3 1) "=s!A1+SUM(S!A1:B2, Data!A1)",
    .setFormula ⟨1, 0⟩ (.plain 1 1) "=1+S!b7", .recalculate .full]

/-- The new name has to be quoted. -/
theorem renamesOnly_qualifiedFormulas :
    ∃ s, ((start {} .standard).run qualifiedFormulas).workbook.sheet? firstSheet = some s ∧
      RenamesOnly ((start {} .standard).run qualifiedFormulas)
        (((start {} .standard).run qualifiedFormulas).renameSheet firstSheet "Q1 (new)").engine firstSheet s.name
        "Q1 (new)" ∧
      (((start {} .standard).run qualifiedFormulas).renameSheet firstSheet "Q1 (new)").engine.formula?
          ⟨firstSheet, 1, 3⟩ = some "='Q1 (new)'!A1+SUM('Q1 (new)'!A1:B2, Data!A1)" ∧
      (((start {} .standard).run qualifiedFormulas).renameSheet firstSheet "Q1 (new)").engine.formula?
          ⟨⟨1, 0⟩, 1, 1⟩ = some "=1+'Q1 (new)'!B7" := by
  have hreachable : Reachable .standard ((start {} .standard).run qualifiedFormulas) :=
    (Reachable.start {} ⟨by decide, by decide⟩).run qualifiedFormulas
  have hsome : (((start {} .standard).run qualifiedFormulas).workbook.sheet? firstSheet).isSome = true := by
    decide +kernel
  obtain ⟨s, hs⟩ := Option.isSome_iff_exists.mp hsome
  have haccepted : (((start {} .standard).run qualifiedFormulas).renameSheet firstSheet "Q1 (new)").result =
      .ok () := by
    decide +kernel
  refine ⟨s, hs, hreachable.renamesOnly (fun _ => ?_) (by decide +kernel) hs haccepted,
    by decide +kernel, by decide +kernel⟩
  have hsettings : ((start {} .standard).run qualifiedFormulas).settings.locale = .invariant := by decide +kernel
  rw [hsettings]
  exact Locale.IsBuiltIn.hasPlainSeparator (Or.inl rfl)

/-! ### A letter between arguments -/

/-- A locale that has the letter T between the arguments of functions. -/
def letterLocale : Locale := ⟨'.', 'T'⟩

/-- Calls that leave a formula with the name of its sheet. -/
def namedLikeSeparator : List Call := [.addSheet "S", .setFormula firstSheet (.plain 2 1) "=S!A1"]

/-- **A sheet that is named like the separator makes formulas unreadable**: the formula was read and resolved
before, and has a syntax error afterwards. -/
theorem not_renamesOnly_letter :
    Reachable .standard ((start { locale := letterLocale } .standard).run namedLikeSeparator) ∧
      ((start { locale := letterLocale } .standard).run namedLikeSeparator).settings.autoRecalculate = false ∧
      (((start { locale := letterLocale } .standard).run namedLikeSeparator).renameSheet firstSheet "T").result =
        .ok () ∧
      ¬RenamesOnly ((start { locale := letterLocale } .standard).run namedLikeSeparator)
        (((start { locale := letterLocale } .standard).run namedLikeSeparator).renameSheet firstSheet "T").engine
        firstSheet "S" "T" := by
  refine ⟨(Reachable.start _ ⟨by decide, by decide⟩).run _, by decide +kernel, by decide +kernel, fun h => ?_⟩
  have hbefore : (((start { locale := letterLocale } .standard).run namedLikeSeparator).workbook.tree?
      ⟨firstSheet, 1, 2⟩).isSome = true := by
    decide +kernel
  have hresolved : ((start { locale := letterLocale } .standard).run namedLikeSeparator).graph.unresolved.toList =
      [] := by
    decide +kernel
  have hafter : ((((start { locale := letterLocale } .standard).run namedLikeSeparator).renameSheet firstSheet
      "T").engine.workbook.tree? ⟨firstSheet, 1, 2⟩).isSome = false := by
    decide +kernel
  obtain ⟨x, hx⟩ := Option.isSome_iff_exists.mp hbefore
  obtain ⟨c, hc, hx⟩ := Option.bind_eq_some_iff.mp hx
  obtain ⟨f, hf, hparsed⟩ := Cell.tree?_eq_some.mp hx
  obtain ⟨c', f', y, hc', hf', hy, -⟩ := h.resolved _ c f x hc hf hparsed fun hmem => by
    rw [← Std.TreeSet.mem_toList, hresolved] at hmem
    cases hmem
  rw [Workbook.tree?_of_cell hc' hf' hy] at hafter
  cases hafter

end Engine

end Spreadsheet
