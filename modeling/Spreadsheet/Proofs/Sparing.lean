import Spreadsheet.Proofs.Entries
import Spreadsheet.Proofs.Moving
import Spreadsheet.Proofs.Spanning

/-!
# Sparing: formulas that an edit of lines leaves alone

An edit of lines is about a formula only if the formula refers to the edited sheet, and refers there to lines from
the first edited one on. Any other formula keeps its text (`Reachable.sparesFormulas`), whether it is read, whether
it can be resolved, and wherever it goes.

There is one exception. A range whose corners stand in reverse order along the axis is put in order, even if it
lies before the edited lines (`LineEdit.reorder`).
-/

namespace Spreadsheet

open Grid

/-! ### Texts -/

/-- A reference by position that a text has a token for. -/
def Mentions (l : Locale) (text : String) (r : Reference) : Prop :=
  ∃ ts, tokenize l text = .ok ts ∧ ∃ t ∈ ts, t.positional? = some r

/-- A text after an edit of its references. -/
def editedText (l : Locale) (text : String) (edit : Reference → Option String) : String :=
  match editReferences l text edit with
  | .ok (some new) => new
  | _ => text

section Texts

variable {l : Locale} {text : String} {edit edit' : Reference → Option String}

/-- A property of the references in a text can be checked token by token. -/
theorem forall_mentions {P : Reference → Prop} [DecidablePred P]
    (h : (tokenize l text).toOption.all (fun ts => ts.all fun t => t.positional?.all fun r => decide (P r)) = true)
    {r : Reference} (hr : Mentions l text r) : P r := by
  obtain ⟨ts, hts, t, ht, hreference⟩ := hr
  rw [hts] at h
  have htoken := List.all_eq_true.mp h t ht
  rw [hreference] at htoken
  exact of_decide_eq_true htoken

/-- An edit changes a text by what it answers for the references in it. -/
theorem editReferences_congr (h : ∀ r, Mentions l text r → edit r = edit' r) :
    editReferences l text edit = editReferences l text edit' := by
  unfold editReferences
  cases hts : tokenize l text with
  | error e => rfl
  | ok ts =>
    have hreplacements : replacements edit ts = replacements edit' ts := by
      unfold replacements
      refine List.filterMap_congr fun t ht => ?_
      cases hr : t.positional? with
      | none => rfl
      | some r =>
        dsimp only
        rw [h r ⟨ts, hts, t, ht, hr⟩]
    dsimp only
    rw [hreplacements]

theorem editedText_congr (h : ∀ r, Mentions l text r → edit r = edit' r) :
    editedText l text edit = editedText l text edit' := by
  unfold editedText
  rw [editReferences_congr h]

/-- An edit that changes no reference in a text leaves the text as it is. -/
theorem editedText_eq_self (h : ∀ r, Mentions l text r → edit r = none) : editedText l text edit = text := by
  have hnone : ∀ ts, replacements (fun _ => none) ts = [] := by
    intro ts
    refine List.filterMap_eq_nil_iff.mpr fun t _ => ?_
    cases t.positional? <;> rfl
  have hcongr : editedText l text edit = editedText l text fun _ => none := editedText_congr h
  rw [hcongr]
  unfold editedText editReferences
  cases tokenize l text with
  | error e => rfl
  | ok ts =>
    dsimp only
    rw [hnone]

/-- The text of an edited formula. -/
theorem Formula.EditedTo.text_eq {read : String → Except ErrorValue Expr} {f f' : Formula}
    (h : f.EditedTo l read edit f') : f'.text = editedText l f.text edit := by
  unfold editedText
  rcases h with ⟨htext, -, hnone⟩ | ⟨hedited, -⟩
  · split
    · next new hnew => exact absurd hnew (hnone new)
    · exact htext
  · rw [hedited]

end Texts

/-! ### References before the edited lines -/

namespace LineEdit

variable {d : LineEdit} {limit : Nat}

/-- All lines of a reference stand before the edited ones. -/
def EndsBefore (d : LineEdit) : Reference → Prop
  | .cell _ a => d.lineOf a < d.line
  | .range _ a b => d.lineOf a < d.line ∧ d.lineOf b < d.line
  | .name _ => True

instance (d : LineEdit) : DecidablePred d.EndsBefore
  | .cell _ a => inferInstanceAs (Decidable (d.lineOf a < d.line))
  | .range _ a b => inferInstanceAs (Decidable (d.lineOf a < d.line ∧ d.lineOf b < d.line))
  | .name _ => inferInstanceAs (Decidable True)

/-- The new texts that put the corners of references to a sheet in order. -/
def reorder (d : LineEdit) (home id : SheetId) (name : String) (r : Reference) : Option String :=
  if r.refersTo home id name = true ∧ d.ordered r ≠ r then some (d.ordered r).text else none

/-- A corner before the edited lines stays, fixed or not. -/
theorem addressImage?_of_lt (hline : d.line ≤ limit) {a : Address} (h : d.lineOf a < d.line) :
    d.addressImage? limit a = some a := by
  unfold addressImage?
  split
  · rfl
  · rw [image?_of_lt hline h, Option.map_some, withLine_lineOf]

/-- A reference before the edited lines stays, up to the order of its corners. -/
theorem referenceImage?_of_endsBefore (hline : d.line ≤ limit) {r : Reference} (h : d.EndsBefore r) :
    d.referenceImage? limit r = some (d.ordered r) := by
  cases r with
  | cell sheet a => exact congrArg (Option.map _) (addressImage?_of_lt hline h)
  | range sheet a b =>
    have ha := addressImage?_of_lt hline h.1
    have hb := addressImage?_of_lt hline h.2
    have hwithin : d.lineOf a ≤ limit ∧ d.lineOf b ≤ limit := by
      have hbefore := h.1
      have hbefore' := h.2
      omega
    unfold referenceImage? rangeImage? ordered
    dsimp only
    split
    · next hle =>
      rw [orderedImage?_of_corners ha hb hwithin.1 hwithin.2, if_pos hle]
      rfl
    · next hlt =>
      rw [orderedImage?_of_corners hb ha hwithin.2 hwithin.1, if_pos (by omega)]
      rfl
  | name n => rfl

/-- An edit gives references before the edited lines no new text, except to put their corners in order. -/
theorem rewrite_of_endsBefore (hline : d.line ≤ limit) {home id : SheetId} {name : String} {r : Reference}
    (h : r.refersTo home id name = true → d.EndsBefore r) :
    d.rewrite limit home id name r = d.reorder home id name r := by
  unfold rewrite reorder
  by_cases hrefers : r.refersTo home id name = true
  · rw [if_pos hrefers, newText?_eq, referenceImage?_of_endsBefore hline (h hrefers)]
    dsimp only
    by_cases hordered : d.ordered r = r
    · rw [if_pos hordered, if_neg fun hne => hne.2 hordered]
    · rw [if_neg hordered, if_pos ⟨hrefers, hordered⟩]
  · rw [if_neg hrefers, if_neg fun hboth => hrefers hboth.1]

end LineEdit

/-! ### Formulas -/

namespace Engine

/-- The texts of formulas are entered. -/
theorem formula?_eq_of_sameEntries {e e' : Engine} (h : e.SameEntries e') (p : Position) :
    e.formula? p = e'.formula? p := by
  have hentry : ∀ e : Engine, e.formula? p = ((e.workbook.cell? p).map Cell.entry).bind Entry.formulaText? := by
    intro e
    unfold formula? cell?
    cases e.workbook.cell? p with
    | none => rfl
    | some c => exact (Cell.formulaText?_entry c).symm
  rw [hentry, hentry, h.workbook.entry_eq]

variable {e : Engine} {id : SheetId} {d : LineEdit} {s : Sheet}

/-- **The text of a formula after an edit of lines**, whether or not a pass follows: it moves with the cell and is
edited for the place it comes from. -/
theorem formula?_shiftLines (h : e.Consistent) (hs : e.workbook.sheet? id = some s) {p q : Position} {text : String}
    (htext : e.formula? p = some text) (hq : e.ComesFrom id d p q) :
    (e.shiftLines id d s).formula? q =
      some (editedText e.settings.locale text (d.rewrite (e.limit d.axis) p.sheet id s.name)) := by
  obtain ⟨c, hc, htext⟩ := Option.bind_eq_some_iff.mp htext
  have hc : e.workbook.cell? p = some c := hc
  obtain ⟨f, hf, rfl⟩ := Option.map_eq_some_iff.mp htext
  have hf := Cell.formula?_eq_some.mp hf
  have hmoved := cell?_movedWorkbook hs hq hc
  let e₁ : Engine := { e with workbook := e.movedWorkbook id d s, names := e.movedNames id d }
  have hcore₁ : e₁.workbook.core? q = some c.core := congrArg (Option.map Cell.core) hmoved
  rw [shiftLines_eq, formula?_eq_of_sameEntries (sameEntries_relinked _ _ _)]
  let e₂ := e.shifted id d s (e.rewrites id d s) (e.shownSpots id d s)
  obtain ⟨c', hc'⟩ : ∃ c', e₂.workbook.cell? q = some c' := by
    rw [← Option.isSome_iff_exists]
    exact (shifted_spec h hs _ _).isSome p q hq.1 (by rw [hc]; rfl)
  have hcore : ((e.rewrites id d s).foldl (fun e' entry => e'.replaceFormula entry.1 entry.2) e₁).workbook.core? q =
      some c'.core := congrArg (Option.map Cell.core) hc'
  obtain ⟨f', hf', hedited⟩ := exists_formula_of_foldl rewords_replaceFormula hcore₁ hf (fun new =>
    (mem_rewrites_iff h.wellFormed hq new).trans (mem_editedFormulas_of_formula h.wellFormed hc hf new)) hcore
  show (e₂.workbook.cell? q).bind Cell.formulaText? = _
  rw [hc', Option.bind_some, ← hedited.text_eq]
  exact congrArg (Option.map Formula.text) (Cell.formula?_eq_some.mpr hf')

/-- **An edit of lines leaves a formula alone** if whatever the formula refers to on the edited sheet stands before
the edited lines: in every reachable engine, whether or not it makes passes by itself, the text of the formula is
the same, up to ranges whose corners are put in order. On a grid that has every line that can be counted it must be
added that no other cell is moved to the place of the formula. -/
theorem Reachable.sparesFormulas {library : Library} (h : Reachable library e)
    (hs : e.workbook.sheet? id = some s) (haccepted : (e.applyEdit id d).result = .ok ()) {p q : Position}
    {text : String} (htext : e.formula? p = some text) (himage : e.image id d p = some q)
    (halone : e.settings.IsRoomy ∨
      ∀ p', (e.workbook.cell? p').isSome = true → e.image id d p' = some q → p' = p)
    (hbefore : ∀ r, Mentions e.settings.locale text r → r.refersTo p.sheet id s.name = true → d.EndsBefore r) :
    (e.applyEdit id d).engine.formula? q =
        some (editedText e.settings.locale text (d.reorder p.sheet id s.name)) ∧
      ((∀ r, Mentions e.settings.locale text r → r.refersTo p.sheet id s.name = true → d.ordered r = r) →
        (e.applyEdit id d).engine.formula? q = some text) := by
  obtain ⟨hchecked, hengine⟩ := applyEdit_of_accepted hs haccepted
  obtain ⟨-, -, hline⟩ := editable_eq_ok hchecked
  have hq : e.ComesFrom id d p q :=
    halone.elim (fun hroomy => comesFrom_of_isRoomy hroomy himage) fun halone => ⟨himage, halone⟩
  have hafter : (e.applyEdit id d).engine.formula? q =
      some (editedText e.settings.locale text (d.reorder p.sheet id s.name)) := by
    rw [hengine, formula?_shiftLines h.consistent hs htext hq]
    exact congrArg some (editedText_congr fun r hr => LineEdit.rewrite_of_endsBefore hline (hbefore r hr))
  refine ⟨hafter, fun hordered => ?_⟩
  rw [hafter, editedText_eq_self fun r hr => ?_]
  unfold LineEdit.reorder
  exact if_neg fun hboth => hboth.2 (hordered r hr hboth.1)

/-- The text of a formula behind the edited lines that refers to its own sheet before them, and to another sheet
behind them. -/
def looksBack : String := "= sum( a1:A$4, s!$B$3:b4 ) +  Data!B9 & \"A9\""

/-- Calls that leave this formula in the eighth row. -/
def readsBefore : List Call := [.addSheet "S", .addSheet "Data", .setFormula firstSheet (.plain 2 8) looksBack]

/-- Two lines are inserted in front of the fifth row of the sheet. -/
theorem sparesFormulas_looksBack :
    ((start {} .standard).run readsBefore).formula? ⟨firstSheet, 8, 2⟩ = some looksBack ∧
      (((start {} .standard).run readsBefore).applyEdit firstSheet ⟨.rows, .insertion, 5, 2⟩).engine.formula?
        ⟨firstSheet, 10, 2⟩ = some looksBack := by
  have hreachable : Reachable .standard ((start {} .standard).run readsBefore) :=
    (Reachable.start {} ⟨by decide, by decide⟩).run readsBefore
  have hname : (((start {} .standard).run readsBefore).workbook.sheet? firstSheet).map Sheet.name = some "S" := by
    decide +kernel
  obtain ⟨s, hs, hname⟩ := Option.map_eq_some_iff.mp hname
  have hlocale : ((start {} .standard).run readsBefore).settings.locale = .invariant := by decide +kernel
  have htext : ((start {} .standard).run readsBefore).formula? ⟨firstSheet, 8, 2⟩ = some looksBack := by
    decide +kernel
  have himage : ((start {} .standard).run readsBefore).image firstSheet ⟨.rows, .insertion, 5, 2⟩ ⟨firstSheet, 8, 2⟩ =
      some ⟨firstSheet, 10, 2⟩ := by
    decide +kernel
  have hbefore : ∀ r, Mentions .invariant looksBack r → r.refersTo firstSheet firstSheet "S" = true →
      LineEdit.EndsBefore ⟨.rows, .insertion, 5, 2⟩ r ∧ LineEdit.ordered ⟨.rows, .insertion, 5, 2⟩ r = r :=
    fun r => forall_mentions (P := fun r => r.refersTo firstSheet firstSheet "S" = true →
      LineEdit.EndsBefore ⟨.rows, .insertion, 5, 2⟩ r ∧ LineEdit.ordered ⟨.rows, .insertion, 5, 2⟩ r = r)
      (by decide +kernel)
  rw [← hlocale, ← hname] at hbefore
  obtain ⟨-, hspares⟩ := hreachable.sparesFormulas hs (by decide +kernel) htext himage
    (Or.inl ⟨by decide +kernel, by decide +kernel⟩) fun r hr hrefers => (hbefore r hr hrefers).1
  exact ⟨htext, hspares fun r hr hrefers => (hbefore r hr hrefers).2⟩

/-- Calls that leave a formula with a range whose corners stand in reverse order. -/
def readsUpwards : List Call := [.addSheet "S", .setFormula firstSheet (.plain 2 1) "=SUM(A5:A1)"]

/-- **A range before the edited lines is put in order**: a row is inserted in front of the tenth one, and the text
of a formula that reads the first five rows from the last to the first is another one. -/
theorem not_sparesFormulas_readsUpwards :
    Reachable .standard ((start {} .standard).run readsUpwards) ∧
      (((start {} .standard).run readsUpwards).applyEdit firstSheet ⟨.rows, .insertion, 10, 1⟩).result = .ok () ∧
      ((start {} .standard).run readsUpwards).formula? ⟨firstSheet, 1, 2⟩ = some "=SUM(A5:A1)" ∧
      (∀ r, Mentions ((start {} .standard).run readsUpwards).settings.locale "=SUM(A5:A1)" r →
        LineEdit.EndsBefore ⟨.rows, .insertion, 10, 1⟩ r) ∧
      ((start {} .standard).run readsUpwards).image firstSheet ⟨.rows, .insertion, 10, 1⟩ ⟨firstSheet, 1, 2⟩ =
        some ⟨firstSheet, 1, 2⟩ ∧
      (((start {} .standard).run readsUpwards).applyEdit firstSheet ⟨.rows, .insertion, 10, 1⟩).engine.formula?
        ⟨firstSheet, 1, 2⟩ = some "=SUM(A1:A5)" := by
  refine ⟨(Reachable.start {} ⟨by decide, by decide⟩).run readsUpwards, by decide +kernel, by decide +kernel,
    fun r => ?_, by decide +kernel, by decide +kernel⟩
  have hlocale : ((start {} .standard).run readsUpwards).settings.locale = .invariant := by decide +kernel
  rw [hlocale]
  exact forall_mentions (by decide +kernel)

end Engine

end Spreadsheet
