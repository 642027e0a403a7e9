import Spreadsheet.Evaluation.Basic
import Spreadsheet.Proofs.Doubles

/-!
# Comparing values

Among values that are not empty, the comparison operators follow one linear order: a value is compared
by its `key`, the place of its kind first, then the place of its number on the line, its text or its
truth value. An empty value has no place of its own. It is compared as the zero of the other value, so it
is equal to `0`, to `""` and to `FALSE` at once, while `0` comes before `""` and `""` before `FALSE`. What
this costs is told apart exactly: comparison is transitive on three values unless they straddle an
empty one (`Straddles`).
-/

namespace Spreadsheet

namespace Value

/-- The number that a value is compared by. -/
def magnitude (v : Value) : Float := v.serial?.getD 0

/-- The text that a value is compared by. -/
def words : Value → String
  | .text s => s
  | _ => ""

/-- The truth value that a value is compared by. -/
def truth : Value → Bool
  | .boolean b => b
  | _ => false

/-- The place of a value in the order of all values that are not empty. -/
def key (v : Value) : ℕ ×ₗ (ℤ ×ₗ ℤ ×ₗ ℤ) ×ₗ String ×ₗ Bool :=
  toLex (v.rank, toLex (Numeric.placeOf v.magnitude, toLex (v.words, v.truth)))

/-- Whether a value has a place in the order: it does not hold the number that is none. -/
def IsOrdered (v : Value) : Prop := v.magnitude.isNaN = false

theorem orderNumbers_eq {x y : Float} (hx : x.isNaN = false) (hy : y.isNaN = false) :
    orderNumbers x y = compare (Numeric.placeOf x) (Numeric.placeOf y) := by
  unfold orderNumbers
  split
  · next h => exact (compare_lt_iff_lt.mpr ((Numeric.lt_iff_place hx hy).mp h)).symm
  · next h =>
    rw [Numeric.lt_iff_place hx hy, not_lt] at h
    split
    · next h' => exact (compare_gt_iff_gt.mpr ((Numeric.lt_iff_place hy hx).mp h')).symm
    · next h' =>
      rw [Numeric.lt_iff_place hy hx, not_lt] at h'
      exact (compare_eq_iff_eq.mpr (le_antisymm h' h)).symm

theorem orderNumbers_zero : orderNumbers 0 0 = .eq := by
  rw [orderNumbers_eq (by decide) (by decide), compare_eq_iff_eq]

theorem orderBooleans_eq (b c : Bool) : orderBooleans b c = compare b c := by
  cases b <;> cases c <;> rfl

/-! ## Values that are not empty -/

/-- Kinds are compared first. Of two values of one kind, all but one of the other comparisons are of
equal things. -/
theorem order_eq_then {v w : Value} (hv : v.isEmpty = false) (hw : w.isEmpty = false) :
    v.order w = (compare v.rank w.rank).then ((orderNumbers v.magnitude w.magnitude).then
      ((compare v.words w.words).then (orderBooleans v.truth w.truth))) := by
  cases v with
  | empty => cases hv
  | text s =>
    cases w with
    | empty => cases hw
    | text t =>
      simp [order, rank, magnitude, serial?, words, truth, orderNumbers_zero, orderBooleans_eq]
    | _ => rfl
  | boolean b =>
    cases w with
    | empty => cases hw
    | boolean c => simp [order, rank, magnitude, serial?, words, truth, orderNumbers_zero]
    | _ => rfl
  | _ =>
    cases w with
    | empty => cases hw
    | text _ | boolean _ => rfl
    | _ => simp [order, rank, magnitude, serial?, words, truth, orderBooleans_eq]

theorem order_eq_key {v w : Value} (hv : v.isEmpty = false) (hw : w.isEmpty = false)
    (hv' : v.IsOrdered) (hw' : w.IsOrdered) : v.order w = compare v.key w.key := by
  rw [order_eq_then hv hw, orderNumbers_eq hv' hw', orderBooleans_eq, key, key,
    Numeric.compare_toLex, Numeric.compare_toLex, Numeric.compare_toLex]

theorem rank_le_of_key_le {v w : Value} (h : v.key ≤ w.key) : v.rank ≤ w.rank := by
  rcases Prod.Lex.le_iff.mp h with h | h
  · exact le_of_lt h
  · exact le_of_eq h.1

theorem key_lt_of_rank_lt {v w : Value} (h : v.rank < w.rank) : v.key < w.key :=
  Prod.Lex.lt_iff.mpr (.inl h)

/-! ## Empty values -/

/-- The zero of the kind of a value: what an empty value is compared as beside it. -/
def zero : Value → Value
  | .text _ => .text ""
  | .boolean _ => .boolean false
  | _ => .number 0

/-- What a value is compared as beside another one. -/
def beside (v w : Value) : Value := if v.isEmpty then w.zero else v

theorem isEmpty_zero (v : Value) : v.zero.isEmpty = false := by cases v <;> rfl

theorem isOrdered_zero (v : Value) : v.zero.IsOrdered := by
  cases v <;> (show Float.isNaN 0 = false; decide)

theorem zero_eq_of_rank_eq {v w : Value} (h : v.rank = w.rank) : v.zero = w.zero := by
  cases v <;> cases w <;> first | rfl | cases h

theorem isEmpty_beside (v w : Value) : (v.beside w).isEmpty = false := by
  unfold beside
  split
  · exact isEmpty_zero w
  · next h => exact Bool.eq_false_iff.mpr h

theorem IsOrdered.beside {v : Value} (hv : v.IsOrdered) (w : Value) : (v.beside w).IsOrdered := by
  unfold Value.beside
  split
  · exact isOrdered_zero w
  · exact hv

theorem order_beside (v w : Value) : v.order w = (v.beside w).order (w.beside v) := by
  cases v with
  | empty =>
    cases w with
    | empty => exact orderNumbers_zero.symm
    | _ => rfl
  | _ => cases w <;> rfl

/-- Two values are compared by their keys, an empty one by the key of the zero that it stands for. -/
theorem order_eq_compare {v w : Value} (hv : v.IsOrdered) (hw : w.IsOrdered) :
    v.order w = compare (v.beside w).key (w.beside v).key := by
  rw [order_beside]
  exact order_eq_key (isEmpty_beside v w) (isEmpty_beside w v) (hv.beside w) (hw.beside v)

/-- The empty text and `FALSE`: the values, other than numbers, that an empty value is equal to. -/
def isVoid : Value → Bool
  | .text s => s == ""
  | .boolean b => !b
  | _ => false

theorem empty_le (s : String) : "" ≤ s :=
  not_lt.mp fun h => List.not_lt_nil _ (String.lt_iff_toList_lt.mp h)

/-- The zero of a kind other than numbers is the least value of the kind. -/
theorem zero_key_le {v : Value} (h : v.rank ≠ 0) : v.zero.key ≤ v.key := by
  cases v with
  | text s =>
    have h : "" < s ∨ "" = s := lt_or_eq_of_le (empty_le s)
    simpa only [key, zero, rank, magnitude, serial?, words, truth, Prod.Lex.toLex_le_toLex, lt_irrefl,
      false_or, true_and, le_refl, and_true] using h
  | boolean b =>
    simp [key, zero, rank, magnitude, serial?, words, truth, Prod.Lex.toLex_le_toLex]
  | _ => exact absurd rfl h

theorem isVoid_iff_key {v : Value} (h : v.rank ≠ 0) : v.isVoid = true ↔ v.key ≤ v.zero.key := by
  rw [(zero_key_le h).ge_iff_eq']
  cases v with
  | text s => simp [isVoid, key, zero, rank, magnitude, serial?, words, truth]
  | boolean b => simp [isVoid, key, zero, rank, magnitude, serial?, words, truth]
  | _ => exact absurd rfl h

/-! ## At most -/

/-- Whether a value is at most another one in the order. -/
def AtMost (v w : Value) : Prop := v.order w ≠ .gt

theorem atMost_iff {v w : Value} (hv : v.IsOrdered) (hw : w.IsOrdered) :
    v.AtMost w ↔ (v.beside w).key ≤ (w.beside v).key := by
  rw [AtMost, order_eq_compare hv hw, Ne, compare_gt_iff_gt, not_lt]

theorem beside_eq_self {v : Value} (h : v.isEmpty = false) (w : Value) : v.beside w = v := by
  rw [beside, h]
  rfl

section Comparisons

variable {v w : Value}

theorem atMost_iff_key (hv : v.IsOrdered) (hw : w.IsOrdered) (hv' : v.isEmpty = false)
    (hw' : w.isEmpty = false) : v.AtMost w ↔ v.key ≤ w.key := by
  rw [atMost_iff hv hw, beside_eq_self hv', beside_eq_self hw']

theorem isOrdered_empty : IsOrdered .empty := isOrdered_zero .empty

theorem atMost_empty_iff (hv : v.IsOrdered) (hv' : v.isEmpty = false) :
    v.AtMost .empty ↔ v.key ≤ v.zero.key := by
  rw [atMost_iff hv isOrdered_empty, beside_eq_self hv']
  rfl

theorem empty_atMost_iff (hv : v.IsOrdered) (hv' : v.isEmpty = false) :
    AtMost .empty v ↔ v.zero.key ≤ v.key := by
  rw [atMost_iff isOrdered_empty hv, beside_eq_self hv']
  rfl

/-- A value of a lower kind is at most a value of a higher kind, and not the other way round. -/
theorem atMost_of_rank_lt (hv : v.IsOrdered) (hw : w.IsOrdered) (hv' : v.isEmpty = false)
    (hw' : w.isEmpty = false) (h : v.rank < w.rank) : v.AtMost w ∧ ¬ w.AtMost v := by
  rw [atMost_iff_key hv hw hv' hw', atMost_iff_key hw hv hw' hv', not_le]
  exact ⟨le_of_lt (key_lt_of_rank_lt h), key_lt_of_rank_lt h⟩

theorem isEmpty_of_isVoid (h : v.isVoid = true) : v.isEmpty = false := by
  cases v <;> first | rfl | cases h

end Comparisons

/-- The triples on which an empty value takes the part of two zeros. Either it stands in the middle,
behind an empty text or `FALSE` and before a value of a lower kind that is not below its own zero; or it
stands at the end, behind an empty text or `FALSE`, which has a value of a lower kind above zero before
it. -/
def Straddles (a b c : Value) : Prop :=
  (b = .empty ∧ a.isVoid = true ∧ c.isEmpty = false ∧ c.rank < a.rank ∧ AtMost .empty c) ∨
  (c = .empty ∧ b.isVoid = true ∧ a.isEmpty = false ∧ a.rank < b.rank ∧ ¬ a.AtMost .empty)

section Transitivity

variable {a b c : Value}

theorem not_trans_of_straddles (ha : a.IsOrdered) (hb : b.IsOrdered) (hc : c.IsOrdered)
    (h : Straddles a b c) : a.AtMost b ∧ b.AtMost c ∧ ¬ a.AtMost c := by
  rcases h with ⟨rfl, hvoid, hc', hrank, hle⟩ | ⟨rfl, hvoid, ha', hrank, hgt⟩
  · have ha' := isEmpty_of_isVoid hvoid
    refine ⟨?_, hle, (atMost_of_rank_lt hc ha hc' ha' hrank).2⟩
    exact (atMost_empty_iff ha ha').mpr ((isVoid_iff_key (by omega)).mp hvoid)
  · have hb' := isEmpty_of_isVoid hvoid
    refine ⟨(atMost_of_rank_lt ha hb ha' hb' hrank).1, ?_, hgt⟩
    exact (atMost_empty_iff hb hb').mpr ((isVoid_iff_key (by omega)).mp hvoid)

/-- Behind an empty value: the zero grows with the kind. -/
theorem empty_trans (hb : b.IsOrdered) (hc : c.IsOrdered) (hb' : b.isEmpty = false)
    (hc' : c.isEmpty = false) (hab : AtMost .empty b) (hbc : b.AtMost c) : AtMost .empty c := by
  have hkey := (atMost_iff_key hb hc hb' hc').mp hbc
  rw [empty_atMost_iff hc hc']
  rw [empty_atMost_iff hb hb'] at hab
  by_cases hrank : b.rank = c.rank
  · rw [← zero_eq_of_rank_eq hrank]
    exact hab.trans hkey
  · have := rank_le_of_key_le hkey
    exact zero_key_le (by omega)

/-- Around an empty value: transitive, unless the kind goes down. -/
theorem trans_empty (ha : a.IsOrdered) (hc : c.IsOrdered) (ha' : a.isEmpty = false)
    (hc' : c.isEmpty = false) (hab : a.AtMost .empty) (hbc : AtMost .empty c) :
    a.AtMost c ∨ Straddles a .empty c := by
  by_cases hrank : c.rank < a.rank
  · have hvoid := (isVoid_iff_key (by omega)).mpr ((atMost_empty_iff ha ha').mp hab)
    exact .inr (.inl ⟨rfl, hvoid, hc', hrank, hbc⟩)
  · left
    by_cases heq : a.rank = c.rank
    · rw [atMost_empty_iff ha ha', zero_eq_of_rank_eq heq] at hab
      rw [empty_atMost_iff hc hc'] at hbc
      exact (atMost_iff_key ha hc ha' hc').mpr (hab.trans hbc)
    · exact (atMost_of_rank_lt ha hc ha' hc' (by omega)).1

/-- Before an empty value: transitive, unless the kind goes up from a value above its zero. -/
theorem atMost_empty_trans (ha : a.IsOrdered) (hb : b.IsOrdered) (ha' : a.isEmpty = false)
    (hb' : b.isEmpty = false) (hab : a.AtMost b) (hbc : b.AtMost .empty) :
    a.AtMost .empty ∨ Straddles a b .empty := by
  have hkey := (atMost_iff_key ha hb ha' hb').mp hab
  have hzero := (atMost_empty_iff hb hb').mp hbc
  by_cases heq : a.rank = b.rank
  · left
    rw [atMost_empty_iff ha ha', zero_eq_of_rank_eq heq]
    exact hkey.trans hzero
  · have hrank : a.rank < b.rank := lt_of_le_of_ne (rank_le_of_key_le hkey) heq
    by_cases hle : a.AtMost .empty
    · exact .inl hle
    · exact .inr (.inr ⟨rfl, (isVoid_iff_key (by omega)).mpr hzero, ha', hrank, hle⟩)

theorem atMost_trans_or (ha : a.IsOrdered) (hb : b.IsOrdered) (hc : c.IsOrdered) (hab : a.AtMost b)
    (hbc : b.AtMost c) : a.AtMost c ∨ Straddles a b c := by
  cases ha' : a.isEmpty <;> cases hb' : b.isEmpty <;> cases hc' : c.isEmpty
  case false.false.false =>
    rw [atMost_iff_key ha hb ha' hb'] at hab
    rw [atMost_iff_key hb hc hb' hc'] at hbc
    exact .inl ((atMost_iff_key ha hc ha' hc').mpr (hab.trans hbc))
  case false.false.true =>
    obtain rfl := eq_empty_of_isEmpty hc'
    exact atMost_empty_trans ha hb ha' hb' hab hbc
  case false.true.false =>
    obtain rfl := eq_empty_of_isEmpty hb'
    exact trans_empty ha hc ha' hc' hab hbc
  case true.false.false =>
    obtain rfl := eq_empty_of_isEmpty ha'
    exact .inl (empty_trans hb hc hb' hc' hab hbc)
  case false.true.true =>
    obtain rfl := eq_empty_of_isEmpty hb'
    obtain rfl := eq_empty_of_isEmpty hc'
    exact .inl hab
  case true.true.false =>
    obtain rfl := eq_empty_of_isEmpty ha'
    obtain rfl := eq_empty_of_isEmpty hb'
    exact .inl hbc
  all_goals
    obtain rfl := eq_empty_of_isEmpty ha'
    obtain rfl := eq_empty_of_isEmpty hc'
    exact .inl nofun

/-- Comparison is transitive on three values exactly if they do not straddle an empty one. -/
theorem trans_iff_not_straddles (ha : a.IsOrdered) (hb : b.IsOrdered) (hc : c.IsOrdered) :
    (a.AtMost b → b.AtMost c → a.AtMost c) ↔ ¬ Straddles a b c := by
  constructor
  · intro htrans hstraddles
    obtain ⟨hab, hbc, hac⟩ := not_trans_of_straddles ha hb hc hstraddles
    exact hac (htrans hab hbc)
  · intro h hab hbc
    exact (atMost_trans_or ha hb hc hab hbc).resolve_right h

end Transitivity

end Value

/-- Which orders of its operands a comparison operator accepts. -/
def BinaryOperator.comparison? : BinaryOperator → Option (Ordering → Bool)
  | .equal => some Ordering.isEq
  | .different => some Ordering.isNe
  | .less => some Ordering.isLT
  | .greater => some Ordering.isGT
  | .atMost => some Ordering.isLE
  | .atLeast => some Ordering.isGE
  | _ => none

theorem BinaryOperator.apply_comparison {op : BinaryOperator} {accepts : Ordering → Bool}
    (h : op.comparison? = some accepts) (locale : Locale) (v w : Value) :
    op.apply locale v w = .ok (.boolean (accepts (v.order w))) := by
  cases op <;> cases h <;> (simp only [apply]; cases v.order w <;> rfl)

theorem evaluate_comparison {ctx : EvaluationContext} {sheet : SheetId} {l r : Expr} {v w : Value}
    (hl : evaluateExpr ctx sheet l = .ok v) (hr : evaluateExpr ctx sheet r = .ok w)
    {op : BinaryOperator} {accepts : Ordering → Bool} (h : op.comparison? = some accepts) (span : Option Span) :
    evaluateExpr ctx sheet (.binary span op l r) = .ok (.boolean (accepts (v.order w))) := by
  simp only [evaluateExpr, hl, hr]
  exact BinaryOperator.apply_comparison h ctx.locale v w

/-- The order of values: a value is equal to itself, the order of two values turns round with them, and
comparison is transitive but for triples that straddle an empty value. Two values are compared by their
keys, an empty one by the key of the other's zero, and every comparison operator goes by this order. -/
theorem Value.order_laws {a b c : Value} (ha : a.IsOrdered) (hb : b.IsOrdered) (hc : c.IsOrdered) :
    a.order a = .eq ∧
      b.order a = (a.order b).swap ∧
      ((a.AtMost b → b.AtMost c → a.AtMost c) ↔ ¬ Straddles a b c) ∧
      a.order b = compare (a.beside b).key (b.beside a).key ∧
      ∀ (ctx : EvaluationContext) (sheet : SheetId) (span : Option Span) (l r : Expr)
        (op : BinaryOperator) (accepts : Ordering → Bool), op.comparison? = some accepts →
        evaluateExpr ctx sheet l = .ok a → evaluateExpr ctx sheet r = .ok b →
        evaluateExpr ctx sheet (.binary span op l r) = .ok (.boolean (accepts (a.order b))) := by
  refine ⟨?_, ?_, trans_iff_not_straddles ha hb hc, order_eq_compare ha hb, ?_⟩
  · rw [order_eq_compare ha ha, compare_eq_iff_eq]
  · rw [order_eq_compare hb ha, order_eq_compare ha hb]
    exact Std.OrientedCmp.eq_swap
  · intro ctx sheet span l r op accepts hop hl hr
    exact evaluate_comparison hl hr hop span

/-- A date, a text and a truth value. -/
theorem Value.order_laws_mixed :
    let ctx : EvaluationContext :=
      { locale := .invariant
        resolve := fun _ id => .ok (.point ⟨id, 1, 1⟩)
        sheetName? := fun _ => none
        value := fun _ => .text "a"
        isObscured := fun _ => false
        function? := fun _ => none }
    let x : Expr := .binary none .less (.literal none (.date 3)) (.reference none "A1" (.cell none (.plain 1 1)))
    (Value.date 3).IsOrdered ∧ (Value.text "a").IsOrdered ∧ (Value.boolean true).IsOrdered ∧
      ((Value.date 3).AtMost (.text "a") → (Value.text "a").AtMost (.boolean true) →
        (Value.date 3).AtMost (.boolean true)) ∧
      evaluateExpr ctx ⟨0, 0⟩ x = .ok (.boolean true) := by
  have hdate : (Value.date 3).IsOrdered := by
    show Float.isNaN 3 = false
    decide
  have htext : (Value.text "a").IsOrdered := isOrdered_zero .empty
  have htruth : (Value.boolean true).IsOrdered := isOrdered_zero .empty
  obtain ⟨-, -, htrans, -, heval⟩ := Value.order_laws hdate htext htruth
  intro ctx x
  have hless := heval ctx ⟨0, 0⟩ none (.literal none (.date 3)) (.reference none "A1" (.cell none (.plain 1 1)))
    .less Ordering.isLT rfl rfl rfl
  refine ⟨hdate, htext, htruth, htrans.mpr ?_, hless⟩
  rintro (⟨h, -⟩ | ⟨h, -⟩) <;> cases h

/-- An empty text is at most an empty cell, which is at most zero, but an empty text comes after zero. -/
theorem Value.order_not_transitive :
    ¬ ∀ a b c : Value, a.IsOrdered → b.IsOrdered → c.IsOrdered →
      a.order a = .eq ∧ b.order a = (a.order b).swap ∧ (a.AtMost b → b.AtMost c → a.AtMost c) := by
  intro h
  have hempty : IsOrdered .empty := isOrdered_empty
  have hnumber : (Value.number 0).IsOrdered := isOrdered_zero .empty
  have htext : (Value.text "").IsOrdered := isOrdered_zero (.text "")
  obtain ⟨-, -, htrans⟩ := h (.text "") .empty (.number 0) htext hempty hnumber
  have hbefore : (Value.text "").AtMost .empty := (atMost_empty_iff htext rfl).mpr le_rfl
  have hbehind : AtMost .empty (.number 0) := (empty_atMost_iff hnumber rfl).mpr le_rfl
  exact htrans hbefore hbehind rfl

end Spreadsheet
