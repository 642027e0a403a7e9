import Mathlib.Tactic.Tauto
import Spreadsheet.Workbook.Position

/-!
# Folds over sorted sets

The engine fills its sets by folds: over lists, over the elements of a set, over the entries of a map.
What a fold holds is settled here once, element by element:

* `holds_foldl_iff` — a fold whose steps add something holds what it started with and what they add;
* `foldl_keeps`, `foldl_unchanged` — what every step keeps, a fold keeps;
* `mem_foldl_insert` — the case of inserting the elements of a list one after the other.

The other lemmas say of a single change to a sorted set, for keys whose order is lawful, which elements
it has afterwards.
-/

namespace Spreadsheet

/-- A fold whose every step keeps what holds and adds what it is there to add, holds exactly what it
started with together with what one of the steps adds. -/
theorem holds_foldl_iff {σ α : Type} (holds : σ → Prop) (adds : α → Prop) (step : σ → α → σ)
    (h : ∀ s x, holds (step s x) ↔ holds s ∨ adds x) (xs : List α) (s : σ) :
    holds (xs.foldl step s) ↔ holds s ∨ ∃ x ∈ xs, adds x := by
  induction xs generalizing s with
  | nil => simp
  | cons x xs ih =>
    rw [List.foldl_cons, ih, h]
    simp [or_assoc]

/-- What every step keeps, a fold keeps. -/
theorem foldl_keeps {σ α : Type} {P : σ → Prop} {step : σ → α → σ} {xs : List α}
    (h : ∀ s, ∀ x ∈ xs, P s → P (step s x)) {s : σ} (hs : P s) : P (xs.foldl step s) := by
  induction xs generalizing s with
  | nil => exact hs
  | cons x xs ih =>
    exact ih (fun s y hy => h s y (List.mem_cons_of_mem _ hy)) (h s x List.mem_cons_self hs)

/-- What no step changes is after a fold what it was before. -/
theorem foldl_unchanged {σ α β : Type} {f : σ → β} {step : σ → α → σ} (h : ∀ s x, f (step s x) = f s)
    (xs : List α) (s : σ) : f (xs.foldl step s) = f s :=
  foldl_keeps (P := fun t => f t = f s) (fun t x _ ht => (h t x).trans ht) rfl

/-! ### One change to a sorted set -/

section Sets

variable {α : Type} [Ord α] [Std.TransOrd α] [Std.LawfulEqOrd α]

/-- A set without listed members has none. -/
theorem not_mem_of_toList_eq_nil {s : PositionSet} (h : s.toList = []) (p : Position) : p ∉ s := by
  rw [← Std.TreeSet.mem_toList, h]
  exact List.not_mem_nil

theorem mem_insert_iff (s : Std.TreeSet α) (p q : α) : q ∈ s.insert p ↔ q = p ∨ q ∈ s := by
  rw [Std.TreeSet.mem_insert, Std.compare_eq_iff_eq, eq_comm]

theorem mem_erase_iff (s : Std.TreeSet α) (p q : α) : q ∈ s.erase p ↔ q ≠ p ∧ q ∈ s := by
  rw [Std.TreeSet.mem_erase, Ne, Std.compare_eq_iff_eq, eq_comm (a := p)]

theorem mem_filter_iff (s : Std.TreeSet α) (test : α → Bool) (q : α) :
    q ∈ s.filter test ↔ q ∈ s ∧ test q = true := by
  rw [Std.TreeSet.mem_filter]
  constructor
  · rintro ⟨h, ht⟩
    rw [Std.TreeSet.get_eq] at ht
    exact ⟨h, ht⟩
  · rintro ⟨h, ht⟩
    refine ⟨h, ?_⟩
    rw [Std.TreeSet.get_eq]
    exact ht

theorem mem_foldl_insert (xs : List α) (s : Std.TreeSet α) (q : α) :
    q ∈ xs.foldl (fun s p => s.insert p) s ↔ q ∈ s ∨ q ∈ xs := by
  rw [holds_foldl_iff (fun s => q ∈ s) (fun p => q = p)]
  · simp
  · intro s p
    rw [mem_insert_iff, or_comm]

theorem mem_ofList_iff [DecidableEq α] (xs : List α) (q : α) : q ∈ Std.TreeSet.ofList xs ↔ q ∈ xs := by
  rw [Std.TreeSet.mem_ofList, List.contains_iff_mem]

end Sets

end Spreadsheet
