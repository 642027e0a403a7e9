import Spreadsheet.Function.Arithmetic
import Spreadsheet.Function.Dates
import Spreadsheet.Function.Logic
import Spreadsheet.Function.Texts

/-!
# The function library

Functions are found by their exact name, capitals and small letters being different. A host may add
functions of its own; a function that is added takes the place of one with the same name.
-/

namespace Spreadsheet

/-- A collection of functions with different names. -/
structure Library where
  functions : List Function

namespace Library

/-- The function with a name. -/
def find? (l : Library) (name : String) : Option Function :=
  l.functions.find? fun f => f.name == name

/-- Adds a function, in place of one with the same name. -/
def register (l : Library) (f : Function) : Library :=
  ⟨f :: l.functions.filter fun g => g.name != f.name⟩

/-- The functions that come with the library. -/
def standard : Library :=
  ⟨Function.arithmetic ++ Function.logic ++ Function.texts ++ Function.dates⟩

/-- A function that was added is found under its name. -/
theorem find?_register (l : Library) (f : Function) : (l.register f).find? f.name = some f := by
  simp [register, find?]

/-- Adding a function does not change what other names mean. -/
theorem find?_register_of_ne (l : Library) {f : Function} {name : String} (h : f.name ≠ name) :
    (l.register f).find? name = l.find? name := by
  simp only [register, find?, List.find?_cons, beq_false_of_ne h, List.find?_filter]
  congr 1
  funext g
  by_cases hg : g.name = name <;> simp [hg, Ne.symm h]

end Library

end Spreadsheet
