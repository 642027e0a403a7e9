import Spreadsheet.Proofs.Stranding
import Spreadsheet.Proofs.Storing

/-!
# Discerning: saved texts and saved formulas are told apart

A saved text does not say whether it was a text constant or a formula; the loader finds out by looking at it.
What it finds is what was saved:

* `loadsText_of_constant` — a text that is read as a text constant is loaded as that constant;
* `loadsFormula_of_isFormulaText` — a text that opens with an equals sign is loaded as a formula, unread, and the
  next pass reads it;
* `Reachable.discerns` — so all texts and formulas of a reachable engine come back as what they were, and never
  as one another, since a reader of constants reads the one and refuses the other.
-/

namespace Spreadsheet

open Grid

namespace Engine

/-! ### The next pass -/

/-- A pass begins with reading. -/
theorem recompute_readAllLoaded {e : Engine} (h : e.Consistent) (scope : PassScope) :
    e.readAllLoaded.recompute scope = e.recompute scope := by
  obtain ⟨-, -, hunread⟩ := readAllLoaded_spec h
  unfold recompute
  rw [readAllLoaded_eq_self hunread]

/-- Where nothing is left to be read, a pass changes values only. -/
theorem content?_recompute {e : Engine} (h : e.Consistent) (hunread : ∀ p, p ∉ e.unread) (scope : PassScope)
    (p : Position) : (e.recompute scope).1.workbook.content? p = e.workbook.content? p := by
  obtain ⟨-, hpassed⟩ := passed_recompute h hunread scope
  calc (e.recompute scope).1.workbook.content? p
    _ = (e.passEnd scope).workbook.content? p := by rw [hpassed.workbook_eq]
    _ = (e.prepared scope).workbook.content? p := hpassed.sound.valid.content?_eq p
    _ = e.workbook.content? p := (markedBy_prepared e scope).content?_eq p

/-- A formula on the list is read from its text. -/
theorem content?_readAllLoaded {e : Engine} {p : Position} (hp : p ∈ e.unread) {c : Cell}
    (hc : e.workbook.cell? p = some c) {f : Formula} (hf : c.content = .formula f) :
    ∃ problem, e.readAllLoaded.workbook.content? p =
      some (.formula ⟨f.text, some (e.readFormula f.text), problem⟩) := by
  have hlisted : p ∈ e.unread.toList := Std.TreeSet.mem_toList.mpr hp
  have hread := readFrom_foldl { e with unread := {} } e.unread.toList
  have hcell := hread.cell_eq p
  unfold readAllLoaded
  dsimp only
  rw [if_neg fun hempty => by rw [List.isEmpty_iff.mp hempty] at hlisted; exact List.not_mem_nil hlisted]
  generalize e.unread.toList.foldl readLoaded { e with unread := {} } = e₁ at hcell ⊢
  -- Reading tells what a cell holds up to its link error, and marking it changes nothing of that.
  obtain ⟨c', hc', hunlinked⟩ : ∃ c', e₁.workbook.cell? p = some c' ∧
      c'.unlinked = c.unlinked.readAs e.readFormula := by
    rw [hc, Option.map_some, if_pos hlisted] at hcell
    exact Option.map_eq_some_iff.mp hcell
  obtain ⟨content, value, flags⟩ := c
  obtain ⟨content', value', flags'⟩ := c'
  cases hf
  cases content' with
  | constant v => cases congrArg Cell.content hunlinked
  | formula f' =>
    obtain ⟨text, parsed, problem⟩ := f'
    cases congrArg Cell.content hunlinked
    refine ⟨problem, ((markedBy_foldl e₁ _).content?_eq p).trans ?_⟩
    rw [Workbook.content?, hc']
    rfl

/-- **The next pass reads a formula on the list**, whatever it covers. -/
theorem exists_read_of_mem_unread {e : Engine} (h : e.Consistent) {p : Position} (hp : p ∈ e.unread) {c : Cell}
    (hc : e.workbook.cell? p = some c) {f : Formula} (hf : c.content = .formula f) (scope : PassScope) :
    ∃ c' f', (e.recompute scope).1.cell? p = some c' ∧ c'.content = .formula f' ∧ f'.text = f.text ∧
      f'.parsed = some (e.readFormula f.text) := by
  obtain ⟨hconsistent, -, hunread⟩ := readAllLoaded_spec h
  obtain ⟨problem, hcontent⟩ := content?_readAllLoaded hp hc hf
  rw [← content?_recompute hconsistent hunread scope, recompute_readAllLoaded h] at hcontent
  obtain ⟨c', hc', hf'⟩ := Option.map_eq_some_iff.mp hcontent
  exact ⟨c', _, hc', hf', rfl, rfl⟩

end Engine

/-- The text that a cell has for content. -/
def Cell.text? (c : Cell) : Option String :=
  match c.content with
  | .constant (.text t) => some t
  | _ => none

theorem Cell.text?_eq_some {c : Cell} {t : String} : c.text? = some t ↔ c.content = .constant (.text t) := by
  unfold text?
  split
  · next s hcontent => rw [hcontent, Option.some.injEq, CellContent.constant.injEq, Value.text.injEq]
  · next hother => exact ⟨nofun, fun hcontent => absurd hcontent (hother t)⟩

/-! ### What a saved cell is loaded as -/

namespace SavedCell

/-- In every engine with a locale, what was saved is loaded as a text constant. -/
def LoadsText (saved : SavedCell) (l : Locale) (t : String) : Prop :=
  ∀ (e : Engine) (sheet : SheetId) (a : Address) (p : Position), e.settings.locale = l → e.locate sheet a = .ok p →
    (e.loadCell sheet a saved).result = .ok () ∧
      (e.loadCell sheet a saved).engine.cell? p = some (Cell.constant (.text t))

/-- In every reachable engine with a locale, what was saved is loaded as a formula that is still to be read, and
the next pass, whatever it covers, reads its text as a tree or a syntax error. -/
def LoadsFormula (saved : SavedCell) (l : Locale) (text : String) (read : Except ErrorValue Expr) : Prop :=
  ∀ (library : Library) (e : Engine) (sheet : SheetId) (a : Address) (p : Position), Engine.Reachable library e →
    e.settings.locale = l → e.locate sheet a = .ok p →
      let e' := (e.loadCell sheet a saved).engine
      (e.loadCell sheet a saved).result = .ok () ∧ e'.cell? p = some (Cell.loaded text saved.value) ∧ p ∈ e'.unread ∧
        ∀ scope, ∃ c f, (e'.recompute scope).1.cell? p = some c ∧ c.content = .formula f ∧ f.text = text ∧
          f.parsed = some read

end SavedCell

namespace Engine

theorem loadsText_of_constant {saved : SavedCell} {l : Locale} {t : String}
    (h : constantOfSaved? l saved.text = some (.text t)) : saved.LoadsText l t := by
  rintro e sheet a p rfl hlocate
  rw [loadCell_of_constant hlocate h rfl]
  exact ⟨rfl, cell?_loadConstant (contains_of_locate hlocate) _⟩

theorem loadCell_of_isFormulaText {e : Engine} {sheet : SheetId} {a : Address} {p : Position} {saved : SavedCell}
    (hlocate : e.locate sheet a = .ok p) (h : isFormulaText saved.text = true) :
    e.loadCell sheet a saved = ⟨e.loadFormula p saved.text saved.value, .ok ()⟩ := by
  obtain ⟨cs, htext⟩ := isFormulaText_iff.mp h
  unfold loadCell edit
  rw [hlocate, perform_ok, htext]
  rfl

/-- The tree of a formula depends on the locale only. -/
theorem readFormula_of_locale {e e' : Engine} (h : e'.settings.locale = e.settings.locale) :
    e'.readFormula = e.readFormula := by
  unfold readFormula
  rw [h]

/-- **A text that opens with an equals sign is loaded as a formula**, which the next pass reads. -/
theorem loadsFormula_of_isFormulaText (e : Engine) {saved : SavedCell} (h : isFormulaText saved.text = true) :
    saved.LoadsFormula e.settings.locale saved.text (e.readFormula saved.text) := by
  intro library e' sheet a p hreachable hlocale hlocate
  have hload := loadCell_of_isFormulaText hlocate h
  have hconsistent : (e'.loadCell sheet a saved).engine.Consistent :=
    (hreachable.call (.loadCell sheet a saved)).consistent
  rw [hload] at hconsistent ⊢
  obtain ⟨hrewritten, hcell, -⟩ :=
    loadFormula_spec hreachable.consistent p (contains_of_locate hlocate) saved.text saved.value
  have hlisted : p ∈ (e'.loadFormula p saved.text saved.value).unread := (mem_insert_iff _ _ _).mpr (Or.inl rfl)
  refine ⟨rfl, hcell, hlisted, fun scope => ?_⟩
  rw [← readFormula_of_locale hlocale, ← readFormula_congr hrewritten.settings_eq]
  exact exists_read_of_mem_unread hconsistent hlisted hcell rfl scope

/-- A formula is read as no constant. -/
theorem constantOfSaved?_of_isFormulaText {l : Locale} {text : String} (h : isFormulaText text = true) :
    constantOfSaved? l text = none := by
  obtain ⟨cs, htext⟩ := isFormulaText_iff.mp h
  rw [constantOfSaved?, htext]
  rfl

theorem text_savedCell_text {e : Engine} {c : Cell} {t : String} (h : c.text? = some t) :
    (e.savedCell c).text = savedText e.settings.locale (.text t) := by
  unfold savedCell
  rw [Cell.text?_eq_some.mp h]

theorem savedCell_formula {e : Engine} {c : Cell} {f : Formula} (h : c.content = .formula f) :
    e.savedCell c = ⟨f.text, c.value⟩ := by
  unfold savedCell
  rw [h]

/-- **Saved texts and formulas are never misread.** After any calls, every stored cell is saved. A text constant
is loaded as that text, whatever it looks like. A formula, also one that was rewritten, is loaded as the same text,
unread, and the next pass reads it as the tree it had, if it had been read. So no text constant, of any engine, is
saved as the same text as a formula. -/
theorem Reachable.discerns {library : Library} {e : Engine} (h : Reachable library e) {p : Position} {c : Cell}
    (hc : e.cell? p = some c) :
    e.saveCell p.sheet p.address = .ok (some (e.savedCell c)) ∧
      (∀ t, c.text? = some t → (e.savedCell c).LoadsText e.settings.locale t) ∧
      ∀ f, c.content = .formula f →
        (e.savedCell c).text = f.text ∧
          (e.savedCell c).LoadsFormula e.settings.locale f.text (e.readFormula f.text) ∧
          (∀ read, f.parsed = some read → read = e.readFormula f.text) ∧
          ∀ (e' : Engine) (d : Cell) (t : String), d.text? = some t → (e'.savedCell d).text ≠ (e.savedCell c).text := by
  refine ⟨h.saveCell_eq hc, fun t ht => loadsText_of_constant ?_, fun f hf => ?_⟩
  · rw [text_savedCell_text ht]
    exact constantOfSaved?_savedText_text _ t
  · have htext : isFormulaText f.text = true := by
      refine (h.isSavable p c hc).2 f.text ?_
      rw [Cell.formulaText?_entry, Cell.formulaText?, Cell.formula?_eq_some.mpr hf, Option.map_some]
    rw [savedCell_formula hf]
    refine ⟨rfl, loadsFormula_of_isFormulaText e htext, fun read hread => ?_, fun e' d t ht heq => ?_⟩
    · rcases (h.consistent.cells p c hc).formula f hf with hnone | hsome
      · rw [hnone] at hread
        cases hread
      · exact Option.some.inj (hread.symm.trans hsome)
    · -- A reader of constants reads the one text and refuses the other.
      have hconstant := constantOfSaved?_savedText_text e'.settings.locale t
      rw [← text_savedCell_text ht, heq, constantOfSaved?_of_isFormulaText htext] at hconstant
      cases hconstant

/-- Calls that put into one cell a text that looks like a formula, and into another a formula that is rewritten
twice: a sheet that it names gets another name, and a cell that it reads moves. -/
def rewritten : List Call :=
  [.addSheet "S", .addSheet "Data", .setValue firstSheet (.plain 1 1) (.text "=1+1"),
    .setFormula firstSheet (.plain 1 2) "=Data!A1+A1", .renameSheet ⟨1, 0⟩ "Q1 26",
    .editLines firstSheet ⟨.rows, .insertion, 1, 1⟩]

theorem discerns_rewritten :
    let e := (start { locale := .commaDecimal } .standard).run rewritten
    Reachable .standard e ∧
      (∃ c, e.cell? ⟨firstSheet, 2, 1⟩ = some c ∧ (e.savedCell c).LoadsText .commaDecimal "=1+1") ∧
      ∃ c, e.cell? ⟨firstSheet, 3, 1⟩ = some c ∧
        (e.savedCell c).LoadsFormula .commaDecimal "='Q1 26'!A1+A2" (e.readFormula "='Q1 26'!A1+A2") := by
  intro e
  have hreachable : Reachable .standard e := (Reachable.start _ ⟨by decide, by decide⟩).run rewritten
  have hlocale : e.settings.locale = .commaDecimal := by decide +kernel
  have htext : (e.cell? ⟨firstSheet, 2, 1⟩).bind Cell.text? = some "=1+1" := by decide +kernel
  have hformula : e.formula? ⟨firstSheet, 3, 1⟩ = some "='Q1 26'!A1+A2" := by decide +kernel
  refine ⟨hreachable, ?_, ?_⟩
  · obtain ⟨c, hc, htext⟩ := Option.bind_eq_some_iff.mp htext
    obtain ⟨-, hloads, -⟩ := hreachable.discerns hc
    rw [hlocale] at hloads
    exact ⟨c, hc, hloads _ htext⟩
  · obtain ⟨c, hc, htext⟩ := Option.bind_eq_some_iff.mp hformula
    obtain ⟨f, hf, heq⟩ := Option.map_eq_some_iff.mp htext
    obtain ⟨-, -, hloads⟩ := hreachable.discerns hc
    obtain ⟨-, hloads, -⟩ := hloads f (Cell.formula?_eq_some.mp hf)
    rw [hlocale, heq] at hloads
    exact ⟨c, hc, hloads⟩

end Engine

end Spreadsheet
