import Spreadsheet.Proofs.Adjusting
import Spreadsheet.Proofs.Matching

/-!
# Moving: lines, texts and edges move together

An edit of lines moves the cells of a sheet and adjusts the texts of formulas (`cell_shifted`, `tree_shifted`), and
then the graph is built anew from these texts. So the graph could have been moved along: a formula that loses
nothing reads afterwards the images of what it read (`Reachable.movesTogether`). On a grid with room, cells neither
meet nor get lost elsewhere.

A text is adjusted with all its other tokens in place. As with new names of sheets, this goes wrong if the
separator of arguments is a character of addresses (`not_movesTogether_digit`).
-/

namespace Spreadsheet

open Grid DependencyGraph

namespace Engine

/-- Lines were edited on a sheet with a name, and cells, texts and edges moved together. -/
structure MovesTogether (e e' : Engine) (id : SheetId) (d : LineEdit) (name : String) : Prop where
  /-- A cell that goes somewhere is there afterwards, with the same kind of content and the same value. -/
  survives : ∀ p q c, e.workbook.cell? p = some c → e.image id d p = some q →
    ∃ c', e'.workbook.cell? q = some c' ∧ c'.value = c.value ∧
      (∀ v, c.content = .constant v → c'.content = .constant v) ∧
      ∀ f, c.content = .formula f → ∃ f', c'.content = .formula f'
  /-- Nothing else is there. -/
  comes : ∀ q, (e'.workbook.cell? q).isSome = true →
    ∃ p, (e.workbook.cell? p).isSome = true ∧ e.image id d p = some q
  /-- Two cells do not go to the same place. -/
  apart : ∀ p p' q, e.image id d p = some q → e.image id d p' = some q → p = p'
  /-- A formula that could be resolved, refers to the sheet by free references only, and loses nothing that it
  reads, can be resolved where it goes, and reads there the images of what it read. -/
  reads : ∀ p q c f x, e.workbook.cell? p = some c → e.image id d p = some q → c.content = .formula f →
    f.parsed = some (.ok x) → p ∉ e.graph.unresolved →
      (∀ r ∈ x.targets, r.refersTo p.sheet id name = true → d.isFree r = true) →
      (∀ a ∈ e.graph.precedentsOf p, (d.areaImage? (e.limit d.axis) id a).isSome = true) →
      ∃ c' f' y, e'.workbook.cell? q = some c' ∧ c'.content = .formula f' ∧ f'.parsed = some (.ok y) ∧
        f'.linkError = none ∧ q ∉ e'.graph.unresolved ∧
        ∀ a', a' ∈ e'.graph.precedentsOf q ↔
          ∃ a ∈ e.graph.precedentsOf p, d.areaImage? (e.limit d.axis) id a = some a'

section Edited

variable {e : Engine} {id : SheetId} {d : LineEdit} {sheet : Sheet}

/-- Of the cells that are stored, only one goes to a position. -/
def ComesFrom (e : Engine) (id : SheetId) (d : LineEdit) (p q : Position) : Prop :=
  e.image id d p = some q ∧ ∀ p', (e.workbook.cell? p').isSome = true → e.image id d p' = some q → p' = p

/-- With room, no two cells go to the same place. -/
theorem comesFrom_of_isRoomy (hroomy : e.settings.IsRoomy) {p q : Position} (himage : e.image id d p = some q) :
    e.ComesFrom id d p q :=
  ⟨himage, fun _ _ himage' => LineEdit.positionImage?_injective (IsEditable.limit_lt hroomy d) himage' himage⟩

/-- A cell to whose place no other goes is there after the move. -/
theorem cell?_movedWorkbook (hs : e.workbook.sheet? id = some sheet) {p q : Position} {c : Cell}
    (hq : e.ComesFrom id d p q) (hc : e.workbook.cell? p = some c) :
    (e.movedWorkbook id d sheet).cell? q = some c := by
  obtain ⟨c', hc'⟩ := Option.isSome_iff_exists.mp (isSome_movedWorkbook hs hq.1 (by rw [hc]; rfl))
  obtain ⟨p', himage', hcell⟩ := source_movedWorkbook hs hc'
  obtain rfl := hq.2 p' (by rw [hcell]; rfl) himage'
  rw [hc', ← hcell, hc]

/-- The new text of its formula is that for the place it comes from. -/
theorem mem_rewrites_iff (hw : e.workbook.WellFormed) {p q : Position} (hq : e.ComesFrom id d p q) (new : String) :
    (q, new) ∈ e.rewrites id d sheet ↔
      (p, new) ∈ e.editedFormulas fun p => d.rewrite (e.limit d.axis) p.sheet id sheet.name := by
  unfold rewrites
  rw [List.mem_filterMap]
  constructor
  · rintro ⟨⟨p', text⟩, hmem, hmoved⟩
    obtain ⟨q', himage', heq⟩ := Option.map_eq_some_iff.mp hmoved
    cases heq
    obtain ⟨c, -, hc, -⟩ := (mem_editedFormulas_iff hw).mp hmem
    obtain rfl := hq.2 p' (by rw [hc]; rfl) himage'
    exact hmem
  · intro hmem
    exact ⟨(p, new), hmem, Option.map_eq_some_iff.mpr ⟨q, hq.1, rfl⟩⟩

section Linked

variable (h : e.Consistent) (hmanual : e.settings.autoRecalculate = false)
  (hs : e.workbook.sheet? id = some sheet)
include h hmanual hs

/-- Up to marks and links, an edit of lines comes to new texts for moved cells. -/
theorem shiftLines_spec :
    (e.shiftLines id d sheet).settings = e.settings ∧ (e.shiftLines id d sheet).names = e.movedNames id d ∧
      (e.shiftLines id d sheet).scope = e.workbook.scope (e.movedNames id d) e.settings ∧
      ∀ q, (e.shiftLines id d sheet).workbook.core? q =
        ((e.rewrites id d sheet).foldl (fun e' entry => e'.replaceFormula entry.1 entry.2)
          ({ e with workbook := e.movedWorkbook id d sheet, names := e.movedNames id d } : Engine)).workbook.core? q := by
  have hshifted := shifted_spec h (d := d) hs (e.rewrites id d sheet) (e.shownSpots id d sheet)
  have hmanual' : (e.shifted id d sheet (e.rewrites id d sheet)
      (e.shownSpots id d sheet)).settings.autoRecalculate = false := by
    rw [hshifted.settings_eq]
    exact hmanual
  rw [shiftLines_eq, relinked_of_manual hmanual']
  have hsymmetric := isSymmetric_relinkAll (hshifted.graph_eq ▸ isSymmetric_empty)
    ((e.shifted id d sheet (e.rewrites id d sheet) (e.shownSpots id d sheet)).workbook.formulaTexts.map Prod.fst)
  have hmarked := markedBy_markDirty hsymmetric
    ((e.movedReaders id d).filterMap (e.image id d) ++ (e.rewrites id d sheet).map Prod.fst)
  have hup := upToLinks_relinkAll (e.shifted id d sheet (e.rewrites id d sheet) (e.shownSpots id d sheet))
    ((e.shifted id d sheet (e.rewrites id d sheet) (e.shownSpots id d sheet)).workbook.formulaTexts.map Prod.fst)
  refine ⟨?_, ?_, ?_, fun q => ?_⟩
  · rw [hmarked.settings_eq, hup.settings_eq, hshifted.settings_eq]
  · rw [hmarked.names_eq, hup.names_eq, hshifted.names_eq]
  · rw [hmarked.scope_eq, hup.scope_eq, hshifted.scope_eq hs]
  · rw [hmarked.core?_eq, hup.core?_eq]
    rfl

/-- A cell to whose place no other goes is there after an edit of lines, up to what becomes of its text. -/
theorem cell_shifted {p q : Position} {c : Cell} (hc : e.workbook.cell? p = some c) (hq : e.ComesFrom id d p q) :
    ∃ c', (e.shiftLines id d sheet).workbook.cell? q = some c' ∧ c'.value = c.value ∧
      (∀ v, c.content = .constant v → c'.content = .constant v) ∧
      ∀ f, c.content = .formula f → ∃ f', c'.content = .formula f' ∧
        f.EditedTo e.settings.locale e.readFormula (d.rewrite (e.limit d.axis) p.sheet id sheet.name) f' := by
  have hmoved := cell?_movedWorkbook hs hq hc
  let e₁ : Engine := { e with workbook := e.movedWorkbook id d sheet, names := e.movedNames id d }
  have hcore₁ : e₁.workbook.core? q = some c.core := congrArg (Option.map Cell.core) hmoved
  have hcore := (shiftLines_spec (d := d) h hmanual hs).2.2.2 q
  obtain ⟨c', hc'⟩ : ∃ c', (e.shiftLines id d sheet).workbook.cell? q = some c' := by
    rw [← Option.isSome_iff_exists, ← Workbook.isSome_core?, hcore, Workbook.isSome_core?,
      (reworded_foldl (e.rewrites id d sheet) e₁).isSome_eq]
    exact Option.isSome_iff_exists.mpr ⟨c, hmoved⟩
  rw [Workbook.core?, hc'] at hcore
  refine ⟨c', hc', ?_, fun v hv => ?_, fun f hf => ?_⟩
  · have hvalue := value_foldl_rewords rewords_replaceFormula (e.rewrites id d sheet) e₁ q
    rw [Workbook.value_eq_core, ← hcore, Workbook.value_eq_core, hcore₁] at hvalue
    rw [← c'.value_core, ← c.value_core]
    exact hvalue
  · rw [core?_foldl_of_not_mem rewords_replaceFormula, hcore₁] at hcore
    · exact Cell.content_of_core (Option.some.inj hcore) hv
    · intro hmem
      obtain ⟨⟨_, new⟩, hentry, rfl⟩ := List.mem_map.mp hmem
      obtain ⟨c₀, text, hc₀, htext, -⟩ :=
        (mem_editedFormulas_iff h.wellFormed).mp ((mem_rewrites_iff h.wellFormed hq new).mp hentry)
      rw [hc] at hc₀
      cases hc₀
      unfold Cell.formulaText? Cell.formula? at htext
      rw [hv] at htext
      cases htext
  · refine exists_formula_of_foldl rewords_replaceFormula hcore₁ hf (fun new => ?_) hcore.symm
    exact (mem_rewrites_iff h.wellFormed hq new).trans (mem_editedFormulas_of_formula h.wellFormed hc hf new)

/-- **The tree of a formula has the adjusted references after an edit of lines**, if no cells that it refers to
are gone. -/
theorem tree_shifted (hlocale : e.settings.locale.IsUnambiguous) (hd : e.IsEditable d) {p q : Position}
    (hq : e.ComesFrom id d p q) {x : Expr} (hx : e.workbook.tree? p = some x)
    (hkept : ∀ r ∈ x.targets, r.refersTo p.sheet id sheet.name = true →
      (d.referenceImage? (e.limit d.axis) r).isSome = true) :
    ∃ y, (e.shiftLines id d sheet).workbook.tree? q = some y ∧
      y.targets = x.targets.map (d.adjusted (e.limit d.axis) p.sheet id sheet.name) := by
  obtain ⟨c, hc, hx⟩ := Option.bind_eq_some_iff.mp hx
  obtain ⟨f, hf, hparsed⟩ := Cell.tree?_eq_some.mp hx
  have hread := (h.cells p c hc).read_eq hf hparsed
  obtain ⟨c', hc', -, -, hformula⟩ := cell_shifted h hmanual hs hc hq
  obtain ⟨f', hf', hedited⟩ := hformula f hf
  obtain ⟨y, hy, hsame⟩ := exists_tree_of_editedTo hlocale hread hparsed
    (LineEdit.answersReferences_rewrite hd.pos hd.limit_le) (fun r hr => LineEdit.writes_adjusted hd.pos hd.limit_le
      (Expr.isWritable_of_mem_targets (readFormula_eq_ok.mp hread) hr) (hkept r hr)) hedited
  refine ⟨y, Workbook.tree?_of_cell hc' hf' hy, ?_⟩
  rw [Expr.targets_eq_of_bare hsame, Expr.targets_mapReferences]

/-- Nothing else is stored after an edit of lines. -/
theorem source_shifted {q : Position} (hq : ((e.shiftLines id d sheet).workbook.cell? q).isSome = true) :
    ∃ p, (e.workbook.cell? p).isSome = true ∧ e.image id d p = some q := by
  rw [← Workbook.isSome_core?, (shiftLines_spec h hmanual hs).2.2.2 q, Workbook.isSome_core?,
    (reworded_foldl (e.rewrites id d sheet) _).isSome_eq] at hq
  obtain ⟨c, hc⟩ := Option.isSome_iff_exists.mp hq
  obtain ⟨p, himage, hp⟩ := source_movedWorkbook hs hc
  exact ⟨p, by rw [hp]; rfl, himage⟩

end Linked

/-- A formula whose references can all be resolved reads what they mean. -/
theorem mem_precedentsOf_iff {p : Position} (hp : e.LinkedAt p) {x : Expr} (hx : e.workbook.tree? p = some x)
    (hresolves : e.Resolves p.sheet x) (a : Area) :
    a ∈ e.graph.precedentsOf p ↔ ∃ r ∈ x.targets, e.scope.resolve r p.sheet = .ok a := by
  rw [(linked_of_resolves hp hx hresolves).1]
  constructor
  · rintro ⟨entry, hentry, ha⟩
    exact ⟨entry.2, Expr.mem_targets.mpr ⟨entry.1, hentry⟩, ha⟩
  · rintro ⟨r, hr, ha⟩
    obtain ⟨written, hentry⟩ := Expr.mem_targets.mp hr
    exact ⟨_, hentry, ha⟩

/-- **What a formula reads moves with it**: all references of the new tree mean the images of what those of the
old tree meant. -/
theorem reads_shifted (h : e.Consistent) (hroomy : e.settings.IsRoomy)
    (hlocale : e.settings.locale.IsUnambiguous) (hmanual : e.settings.autoRecalculate = false)
    (hdistinct : e.workbook.NamesDistinct) (hs : e.workbook.sheet? id = some sheet) (hd : e.IsEditable d)
    (hlinked : ∀ q, (e.shiftLines id d sheet).LinkedAt q) {p q : Position} {c : Cell} {f : Formula} {x : Expr}
    (hc : e.workbook.cell? p = some c) (himage : e.image id d p = some q) (hf : c.content = .formula f)
    (hx : f.parsed = some (.ok x)) (hp : p ∉ e.graph.unresolved)
    (hfree : ∀ r ∈ x.targets, r.refersTo p.sheet id sheet.name = true → d.isFree r = true)
    (hkept : ∀ a ∈ e.graph.precedentsOf p, (d.areaImage? (e.limit d.axis) id a).isSome = true) :
    ∃ c' f' y, (e.shiftLines id d sheet).workbook.cell? q = some c' ∧ c'.content = .formula f' ∧
      f'.parsed = some (.ok y) ∧ f'.linkError = none ∧ q ∉ (e.shiftLines id d sheet).graph.unresolved ∧
      ∀ a', a' ∈ (e.shiftLines id d sheet).graph.precedentsOf q ↔
        ∃ a ∈ e.graph.precedentsOf p, d.areaImage? (e.limit d.axis) id a = some a' := by
  have htree := Workbook.tree?_of_cell hc hf hx
  have hresolved : e.Resolves p.sheet x :=
    (unresolved_linkAt htree).mp (resolved_of_not_mem (h.linked p) hp)
  have hreads := mem_precedentsOf_iff (h.linked p) htree hresolved
  have hsheet : q.sheet = p.sheet := (LineEdit.positionImage?_eq_some.mp himage).1
  -- One by one the references mean the images of what they meant.
  have hmeans : ∀ r ∈ x.targets, ∃ a a', e.scope.resolve r p.sheet = .ok a ∧
      d.areaImage? (e.limit d.axis) id a = some a' ∧
      (r.refersTo p.sheet id sheet.name = true → (d.referenceImage? (e.limit d.axis) r).isSome = true) ∧
      (e.shiftLines id d sheet).scope.resolve (d.adjusted (e.limit d.axis) p.sheet id sheet.name r) q.sheet =
        .ok a' := by
    intro r hr
    obtain ⟨written, hentry⟩ := Expr.mem_targets.mp hr
    obtain ⟨a, ha⟩ := hresolved _ hentry
    obtain ⟨a', ha'⟩ := Option.isSome_iff_exists.mp (hkept a ((hreads a).mpr ⟨r, hr, ha⟩))
    obtain ⟨hsome, hresolve⟩ := resolve_adjusted h hd hdistinct hs ha (hfree r hr) ha'
    rw [(shiftLines_spec h hmanual hs).2.2.1, hsheet]
    exact ⟨a, a', ha, ha', hsome, hresolve⟩
  obtain ⟨y, htree', hy⟩ := tree_shifted h hmanual hs hlocale hd (comesFrom_of_isRoomy hroomy himage) htree
    fun r hr hrefers => by
      obtain ⟨_, _, -, -, hsome, -⟩ := hmeans r hr
      exact hsome hrefers
  obtain ⟨c', hc', htree''⟩ := Option.bind_eq_some_iff.mp htree'
  obtain ⟨f', hf', hparsed⟩ := Cell.tree?_eq_some.mp htree''
  have htargets : ∀ r', r' ∈ y.targets ↔
      ∃ r ∈ x.targets, d.adjusted (e.limit d.axis) p.sheet id sheet.name r = r' := by
    intro r'
    rw [hy, List.mem_map]
  have hresolved' : (e.shiftLines id d sheet).Resolves q.sheet y := by
    intro entry hentry
    obtain ⟨r, hr, heq⟩ := (htargets entry.2).mp (Expr.mem_targets.mpr ⟨entry.1, hentry⟩)
    obtain ⟨_, a', -, -, -, hresolve⟩ := hmeans r hr
    exact ⟨a', heq ▸ hresolve⟩
  obtain ⟨-, hknown, hnone⟩ := linked_of_resolves (hlinked q) htree' hresolved'
  rw [Workbook.linkKind?_of_cell hc' hf'] at hnone
  refine ⟨c', f', y, hc', hf', hparsed, Option.map_eq_none_iff.mp hnone, hknown, fun b => ?_⟩
  rw [mem_precedentsOf_iff (hlinked q) htree' hresolved']
  constructor
  · rintro ⟨r', hr', hb⟩
    obtain ⟨r, hr, rfl⟩ := (htargets r').mp hr'
    obtain ⟨a, a', ha, ha', -, hresolve⟩ := hmeans r hr
    rw [hresolve] at hb
    cases hb
    exact ⟨a, (hreads a).mpr ⟨r, hr, ha⟩, ha'⟩
  · rintro ⟨a, ha, hb⟩
    obtain ⟨r, hr, ha⟩ := (hreads a).mp ha
    obtain ⟨a₀, a', ha₀, ha', -, hresolve⟩ := hmeans r hr
    obtain rfl := Except.ok.inj (ha.symm.trans ha₀)
    obtain rfl := Option.some.inj (hb.symm.trans ha')
    exact ⟨_, (htargets _).mpr ⟨r, hr, rfl⟩, hresolve⟩

end Edited

/-- **Edits of lines commute with the graph**: in every reachable engine on a grid with room that makes no passes
by itself, in a locale whose separator has no other meaning in formulas. -/
theorem Reachable.movesTogether {library : Library} {e : Engine} (h : Reachable library e)
    (hroomy : e.settings.IsRoomy) (hlocale : e.settings.locale.IsUnambiguous)
    (hmanual : e.settings.autoRecalculate = false) {id : SheetId} {s : Sheet}
    (hs : e.workbook.sheet? id = some s) {d : LineEdit} (haccepted : (e.applyEdit id d).result = .ok ()) :
    MovesTogether e (e.applyEdit id d).engine id d s.name := by
  have hconsistent := h.consistent
  obtain ⟨hchecked, hengine⟩ := applyEdit_of_accepted hs haccepted
  obtain ⟨-, hpos, hline⟩ := editable_eq_ok hchecked
  have hd : e.IsEditable d := ⟨hpos, hline, hroomy.isCountable⟩
  have hlinked := (h.call (.editLines id d)).consistent.linked
  rw [show e.after (.editLines id d) = e.shiftLines id d s from hengine] at hlinked
  rw [hengine]
  constructor
  case survives =>
    intro p q c hc himage
    obtain ⟨c', hc', hvalue, hconstant, hformula⟩ :=
      cell_shifted hconsistent hmanual hs hc (comesFrom_of_isRoomy hroomy himage)
    exact ⟨c', hc', hvalue, hconstant, fun f hf => (hformula f hf).imp fun _ => And.left⟩
  case comes => exact fun q hq => source_shifted hconsistent hmanual hs hq
  case apart => exact fun p p' q hp hp' => LineEdit.positionImage?_injective (IsEditable.limit_lt hroomy d) hp hp'
  case reads =>
    intro p q c f x hc himage hf hx hp hfree hkept
    exact reads_shifted hconsistent hroomy hlocale hmanual h.namesDistinct hs hd hlinked hc himage hf hx hp hfree
      hkept

/-- Calls that leave formulas which read a sheet from itself and from another one, by cells, by a range with its
corners in reverse order, and by a name. -/
def readFromAllOver : List Call :=
  [.addSheet "S", .addSheet "Data", .defineName "Rates" firstSheet ⟨2, 3, 2, 6, by decide, by decide⟩,
    .setFormula firstSheet (.plain 1 4) "=B5+SUM(B6:B2)+Data!B5", .setFormula ⟨1, 0⟩ (.plain 1 4) "=s!A4*SUM(rates)",
    .recalculate .full]

/-- Two lines are inserted in front of the fourth row of the sheet. -/
theorem movesTogether_readFromAllOver :
    ∃ s, ((start {} .standard).run readFromAllOver).workbook.sheet? firstSheet = some s ∧
      MovesTogether ((start {} .standard).run readFromAllOver)
        (((start {} .standard).run readFromAllOver).applyEdit firstSheet ⟨.rows, .insertion, 4, 2⟩).engine firstSheet
        ⟨.rows, .insertion, 4, 2⟩ s.name ∧
      (((start {} .standard).run readFromAllOver).applyEdit firstSheet ⟨.rows, .insertion, 4, 2⟩).engine.formula?
          ⟨firstSheet, 6, 1⟩ = some "=B7+SUM(B2:B8)+Data!B5" ∧
      (((start {} .standard).run readFromAllOver).applyEdit firstSheet
          ⟨.rows, .insertion, 4, 2⟩).engine.graph.precedentsOf ⟨⟨1, 0⟩, 4, 1⟩ =
        [.point ⟨firstSheet, 6, 1⟩, .range firstSheet ⟨2, 3, 2, 8, by decide, by decide⟩] := by
  have hreachable : Reachable .standard ((start {} .standard).run readFromAllOver) :=
    (Reachable.start {} ⟨by decide, by decide⟩).run readFromAllOver
  have hsome : (((start {} .standard).run readFromAllOver).workbook.sheet? firstSheet).isSome = true := by
    decide +kernel
  obtain ⟨s, hs⟩ := Option.isSome_iff_exists.mp hsome
  refine ⟨s, hs, hreachable.movesTogether ⟨by decide +kernel, by decide +kernel⟩ (fun _ => ?_) (by decide +kernel) hs
    (by decide +kernel), by decide +kernel, by decide +kernel⟩
  have hlocale : ((start {} .standard).run readFromAllOver).settings.locale = .invariant := by decide +kernel
  rw [hlocale]
  exact Locale.IsBuiltIn.hasPlainSeparator (Or.inl rfl)

/-! ### A digit between arguments -/

/-- A locale that has the digit 5 between the arguments of functions. -/
def digitLocale : Locale := ⟨'.', '5'⟩

/-- Calls that leave a formula which reads a cell of the fourth row. -/
def readsFourthRow : List Call := [.addSheet "S", .setFormula firstSheet (.plain 1 1) "=B4"]

/-- **An address that gets the separator makes a formula unreadable**: the formula was read and resolved
before, and has a syntax error afterwards. -/
theorem not_movesTogether_digit :
    Reachable .standard ((start { locale := digitLocale } .standard).run readsFourthRow) ∧
      ((start { locale := digitLocale } .standard).run readsFourthRow).settings.autoRecalculate = false ∧
      ((start { locale := digitLocale } .standard).run readsFourthRow).unread.toList = [] ∧
      (((start { locale := digitLocale } .standard).run readsFourthRow).applyEdit firstSheet
        ⟨.rows, .insertion, 1, 1⟩).result = .ok () ∧
      ¬MovesTogether ((start { locale := digitLocale } .standard).run readsFourthRow)
        (((start { locale := digitLocale } .standard).run readsFourthRow).applyEdit firstSheet
          ⟨.rows, .insertion, 1, 1⟩).engine firstSheet ⟨.rows, .insertion, 1, 1⟩ "S" := by
  refine ⟨(Reachable.start _ ⟨by decide, by decide⟩).run _, by decide +kernel, by decide +kernel,
    by decide +kernel, fun h => ?_⟩
  have hcell : (((start { locale := digitLocale } .standard).run readsFourthRow).workbook.tree?
      ⟨firstSheet, 1, 1⟩).map Expr.targets = some [.cell none (.plain 2 4)] := by
    decide +kernel
  have hresolved : ((start { locale := digitLocale } .standard).run readsFourthRow).graph.unresolved.toList =
      [] := by
    decide +kernel
  have hreads : ((start { locale := digitLocale } .standard).run readsFourthRow).graph.precedentsOf
      ⟨firstSheet, 1, 1⟩ = [.point ⟨firstSheet, 4, 2⟩] := by
    decide +kernel
  have hafter : ((((start { locale := digitLocale } .standard).run readsFourthRow).applyEdit firstSheet
      ⟨.rows, .insertion, 1, 1⟩).engine.workbook.tree? ⟨firstSheet, 2, 1⟩).isSome = false := by
    decide +kernel
  obtain ⟨x, hx, htargets⟩ := Option.map_eq_some_iff.mp hcell
  obtain ⟨c, hc, hx⟩ := Option.bind_eq_some_iff.mp hx
  obtain ⟨f, hf, hparsed⟩ := Cell.tree?_eq_some.mp hx
  obtain ⟨c', f', y, hc', hf', hy, -⟩ := h.reads ⟨firstSheet, 1, 1⟩ ⟨firstSheet, 2, 1⟩ c f x hc (by decide +kernel) hf
    hparsed
    (fun hmem => by
      rw [← Std.TreeSet.mem_toList, hresolved] at hmem
      cases hmem)
    (fun r hr _ => by
      rw [htargets] at hr
      rw [List.mem_singleton.mp hr]
      rfl)
    (fun a ha => by
      rw [hreads] at ha
      rw [List.mem_singleton.mp ha]
      decide +kernel)
  rw [Workbook.tree?_of_cell hc' hf' hy] at hafter
  cases hafter

end Engine

end Spreadsheet
