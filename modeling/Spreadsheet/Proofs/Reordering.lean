import Mathlib
import Spreadsheet.Proofs.Lockstep
import Spreadsheet.Proofs.Pulling
import Spreadsheet.Proofs.Refusing

/-!
# Reordering: cells may be loaded in any order

Loading a constant marks its readers along the edges that are there at that moment, and loading a formula
takes edges away. So what is marked depends on the order in which cells are loaded, but not by much:
`Engine.Taken` bounds it from both sides. Whatever depends on a cell that was filled with a constant or emptied,
along edges that are still there at the end, is marked in every order. Whatever is marked in some order and is not
among these depends on a formula that has been loaded, and so it is marked when that formula is read.

* `taken_loadCell`, `Taken.trans`, `taken_run` — one load, loads after loads, and all loads;
* `Taken.alikeUpTo` — two orders lead to engines that are alike but for what depends on a loaded formula;
* `Reachable.loadsInAnyOrder` — after a pass over the dirty cells nothing is left of the difference.
-/

namespace Spreadsheet

open Grid DependencyGraph Relation

/-- A cell to be loaded, and what was saved of it. -/
structure Load where
  sheet : SheetId
  address : Address
  saved : SavedCell

namespace Load

/-- The call that loads a cell. -/
def call (l : Load) : Call := .loadCell l.sheet l.address l.saved

/-- The position that is filled. -/
def target (l : Load) : Position := .ofAddress l.sheet l.address

/-- Whether the saved text is a formula. -/
def isFormula (l : Load) : Bool := Engine.isFormulaText l.saved.text

/-- The cell that is stored; nothing if the position is emptied. -/
def stored? (l : Load) (locale : Locale) : Option Cell :=
  match l.saved.text.toList with
  | '=' :: _ => some (.loaded l.saved.text l.saved.value)
  | c :: rest =>
    some (.constant (if c = textMark then .text (String.ofList rest) else Value.ofConstant locale l.saved.text))
  | [] => none

/-- A new cell is dirty already. -/
theorem stored?_markDirty (l : Load) (locale : Locale) :
    (l.stored? locale).map Cell.markDirty = l.stored? locale := by
  unfold stored?
  split <;> rfl

end Load

namespace Engine

/-- Whether a load marks the readers of its cell: it stores a constant, or it empties a cell that was stored. -/
def Spreads (e : Engine) (l : Load) : Prop :=
  l.isFormula = false ∧
    ((l.stored? e.settings.locale).isSome = true ∨ (e.workbook.cell? l.target).isSome = true)

/-- What loading some cells comes to, when the positions in `M` are marked on the way. -/
structure Taken (ls : List Load) (M : Position → Prop) (e e' : Engine) : Prop where
  settings_eq : e'.settings = e.settings
  library_eq : e'.library = e.library
  names_eq : e'.names = e.names
  mailbox_eq : e'.mailbox = e.mailbox
  frame : e'.workbook.SameFrame e.workbook
  loaded : ∀ l ∈ ls, e'.workbook.cell? l.target = l.stored? e.settings.locale
  marked : ∀ q, (∀ l ∈ ls, q ≠ l.target) → M q → e'.workbook.cell? q = (e.workbook.cell? q).map Cell.markDirty
  unmarked : ∀ q, (∀ l ∈ ls, q ≠ l.target) → ¬M q → e'.workbook.cell? q = e.workbook.cell? q
  link_loaded : ∀ l ∈ ls, e'.graph.link l.target = {}
  link_other : ∀ q, (∀ l ∈ ls, q ≠ l.target) → e'.graph.link q = e.graph.link q
  unread_loaded : ∀ l ∈ ls, l.target ∈ e'.unread ↔ l.isFormula = true
  unread_other : ∀ q, (∀ l ∈ ls, q ≠ l.target) → (q ∈ e'.unread ↔ q ∈ e.unread)
  dirty_loaded : ∀ l ∈ ls, l.target ∈ e'.dirty ↔ (l.stored? e.settings.locale).isSome = true
  dirty_other : ∀ q, (∀ l ∈ ls, q ≠ l.target) →
    (q ∈ e'.dirty ↔ q ∈ e.dirty ∨ (M q ∧ (e.workbook.cell? q).isSome = true))
  changes : ∀ q, q ∈ e'.changes ↔ q ∈ e.changes ∨ ∃ l ∈ ls, q = l.target ∧ l.stored? e.settings.locale = none ∧
    (e.workbook.value q).isEmpty = false
  marks : ∀ l ∈ ls, e.Spreads l → ∀ q, ReflTransGen e'.graph.Reads q l.target → M q
  marked_only : ∀ q, M q → ∃ l ∈ ls, (e.Spreads l ∨ l.isFormula = true) ∧ ReflTransGen e'.graph.Reads q l.target

/-! ### One load -/

section One

variable {e e₁ e₂ : Engine} {l : Load} {Q : Position → Prop}

/-- A load changes one position and marks what depends on it, if it marks anything. -/
theorem taken_of_rewritten (hrewritten : Rewritten l.target e e₁) (hmarked : MarkedBy Q e₁ e₂)
    (hcell : e₁.workbook.cell? l.target = l.stored? e.settings.locale) (hlink : e₁.graph.link l.target = {})
    (hunread : l.target ∈ e₁.unread ↔ l.isFormula = true)
    (hdirty : l.target ∈ e₂.dirty ↔ (l.stored? e.settings.locale).isSome = true)
    (hchanges : ∀ q, q ∈ e₁.changes ↔ q ∈ e.changes ∨ (q = l.target ∧ l.stored? e.settings.locale = none ∧
      (e.workbook.value q).isEmpty = false))
    (hQ : ∀ q, Q q ↔ e.Spreads l ∧ ReflTransGen e₁.graph.Reads q l.target) : Taken [l] Q e e₂ := by
  have hother : ∀ {q : Position}, (∀ l' ∈ [l], q ≠ l'.target) → q ≠ l.target := fun hq =>
    hq l (List.mem_singleton.mpr rfl)
  constructor
  case settings_eq => rw [hmarked.settings_eq, hrewritten.settings_eq]
  case library_eq => rw [hmarked.library_eq, hrewritten.rest_eq]
  case names_eq => rw [hmarked.names_eq, hrewritten.names_eq]
  case mailbox_eq => rw [hmarked.rest_eq, hrewritten.rest_eq]
  case frame => exact hmarked.frame.trans hrewritten.frame
  case loaded =>
    intro l' hl'
    rw [List.mem_singleton.mp hl']
    by_cases hq : Q l.target
    · rw [hmarked.cell_marked _ hq, hcell, l.stored?_markDirty]
    · rw [hmarked.cell_unmarked _ hq, hcell]
  case marked =>
    intro q hq hQq
    rw [hmarked.cell_marked q hQq, hrewritten.cell_eq q (hother hq)]
  case unmarked =>
    intro q hq hQq
    rw [hmarked.cell_unmarked q hQq, hrewritten.cell_eq q (hother hq)]
  case link_loaded =>
    intro l' hl'
    rw [List.mem_singleton.mp hl', hmarked.graph_eq, hlink]
  case link_other =>
    intro q hq
    rw [hmarked.graph_eq, hrewritten.link_eq q (hother hq)]
  case unread_loaded =>
    intro l' hl'
    rw [List.mem_singleton.mp hl', hmarked.unread_eq, hunread]
  case unread_other =>
    intro q hq
    rw [hmarked.unread_eq, hrewritten.unread_iff q (hother hq)]
  case dirty_loaded =>
    intro l' hl'
    rw [List.mem_singleton.mp hl', hdirty]
  case dirty_other =>
    intro q hq
    rw [hmarked.mem_dirty, hrewritten.dirty_iff q (hother hq), hrewritten.cell_eq q (hother hq)]
  case changes =>
    intro q
    rw [hmarked.rest_eq]
    show q ∈ e₁.changes ↔ _
    rw [hchanges]
    simp
  case marks =>
    intro l' hl' hspreads q hpath
    obtain rfl := List.mem_singleton.mp hl'
    rw [hmarked.graph_eq] at hpath
    exact (hQ q).mpr ⟨hspreads, hpath⟩
  case marked_only =>
    intro q hq
    obtain ⟨hspreads, hpath⟩ := (hQ q).mp hq
    rw [hmarked.graph_eq]
    exact ⟨l, List.mem_singleton.mpr rfl, Or.inl hspreads, hpath⟩

theorem changes_take (e : Engine) (p : Position) : (e.take p).changes = e.changes := by
  unfold take
  split <;> rfl

theorem taken_loadConstant (he : e.Consistent) (hsheet : e.workbook.contains l.target.sheet = true) {v : Value}
    (hstored : l.stored? e.settings.locale = some (.constant v)) (hkind : l.isFormula = false) :
    Taken [l] (fun q => ∃ p ∈ [l.target], ReflTransGen ((e.take l.target).store l.target (.constant v)).graph.Reads q p)
      e (e.loadConstant l.target v) := by
  obtain ⟨hrewritten, -, hlink, hunread, -⟩ := take_spec he l.target
  have hstore := hrewritten.store (.constant v)
  have hmarked := markedBy_markDirty (hstore.symmetric he.symmetric) [l.target]
  have hcell : ((e.take l.target).store l.target (.constant v)).workbook.cell? l.target = some (.constant v) :=
    cell_store ((hrewritten.frame.contains_eq _).trans hsheet) _
  refine taken_of_rewritten hstore hmarked (hcell.trans hstored.symm) hlink ?_ ?_ (fun q => ?_) fun q => ?_
  · rw [hkind]
    exact iff_of_false hunread Bool.false_ne_true
  · rw [hstored]
    refine iff_of_true ((hmarked.mem_dirty _).mpr (Or.inr ⟨⟨_, List.mem_singleton.mpr rfl, .refl⟩, ?_⟩)) rfl
    rw [hcell]
    rfl
  · show q ∈ (e.take l.target).changes ↔ _
    rw [changes_take, hstored]
    simp
  · have hspreads : e.Spreads l := ⟨hkind, Or.inl (by rw [hstored]; rfl)⟩
    simp [hspreads]

theorem emptyCell_of_cell {p : Position} {c : Cell} (hc : e.workbook.cell? p = some c) :
    ∃ changes : PositionSet, e.emptyCell p = ((e.withoutCell p changes).markDirty [p]).afterEdit ∧
      ∀ q, q ∈ changes ↔ q ∈ e.changes ∨ (q = p ∧ (e.workbook.value q).isEmpty = false) := by
  refine ⟨if c.value.isEmpty then (e.take p).changes else (e.take p).changes.insert p, ?_, fun q => ?_⟩
  · unfold emptyCell
    rw [hc]
    rfl
  · rw [changes_take]
    by_cases hq : q = p
    · rw [hq, Workbook.value_of_cell hc]
      cases c.value.isEmpty <;> simp
    · split <;> simp [hq, Ne.symm hq]

theorem taken_emptyCell (he : e.Consistent) (hmanual : e.settings.autoRecalculate = false)
    (hstored : l.stored? e.settings.locale = none) (hkind : l.isFormula = false) :
    ∃ M, Taken [l] M e (e.emptyCell l.target) := by
  cases hc : e.workbook.cell? l.target with
  | none =>
    have hsame : Rewritten l.target e e := ⟨rfl, .refl _, fun hw => hw, fun hg => hg, fun _ _ => rfl, fun _ _ => rfl,
      fun _ _ => Iff.rfl, fun _ _ => Iff.rfl⟩
    have hdirty : l.target ∉ e.dirty := fun hmem => by
      have hsome := he.stored _ hmem
      rw [hc] at hsome
      cases hsome
    have hempty : e.emptyCell l.target = e := by
      unfold emptyCell
      rw [hc]
    rw [hempty]
    refine ⟨_, taken_of_rewritten hsame (markedBy_nothing (P := fun _ => False) (fun _ => id) e) (hc.trans hstored.symm)
      (link_of_no_cell (he.linked _) hc) ?_ ?_ (fun q => ?_) fun q => ?_⟩
    · rw [hkind]
      exact iff_of_false (fun hmem => hdirty (he.unread _ hmem)) Bool.false_ne_true
    · rw [hstored]
      exact iff_of_false hdirty Bool.false_ne_true
    · refine ⟨Or.inl, Or.rec id ?_⟩
      rintro ⟨rfl, -, hvalue⟩
      rw [Workbook.value_eq, hc] at hvalue
      cases hvalue
    · refine ⟨False.elim, ?_⟩
      rintro ⟨⟨-, hspreads⟩, -⟩
      rw [hstored, hc] at hspreads
      rcases hspreads with h | h <;> cases h
  | some c =>
    obtain ⟨changes, hempty, hchanges⟩ := emptyCell_of_cell hc
    obtain ⟨hrewritten, -⟩ := edit_withoutCell he l.target changes
    obtain ⟨-, hnone, hlink, hunread, -⟩ := take_spec he l.target
    have hmarked := markedBy_markDirty (hrewritten.symmetric he.symmetric) [l.target]
    rw [hempty, afterEdit_of_manual ((congrArg Settings.autoRecalculate
      (hmarked.settings_eq.trans hrewritten.settings_eq)).trans hmanual)]
    refine ⟨_, taken_of_rewritten hrewritten hmarked (Eq.trans hnone hstored.symm) hlink ?_ ?_ (fun q => ?_)
      fun q => ?_⟩
    · rw [hkind]
      exact iff_of_false hunread Bool.false_ne_true
    · rw [hstored]
      refine iff_of_false (fun hmem => ?_) Bool.false_ne_true
      rcases (hmarked.mem_dirty _).mp hmem with hmem | ⟨-, hsome⟩
      · exact ((mem_erase_iff _ _ _).mp hmem).1 rfl
      · rw [show (e.withoutCell l.target changes).workbook.cell? l.target = none from hnone] at hsome
        cases hsome
    · rw [hstored, show (e.withoutCell l.target changes).changes = changes from rfl, hchanges]
      simp
    · have hspreads : e.Spreads l := ⟨hkind, Or.inr (by rw [hc]; rfl)⟩
      simp [hspreads]

theorem taken_loadFormula (he : e.Consistent) (hsheet : e.workbook.contains l.target.sheet = true)
    (hstored : l.stored? e.settings.locale = some (.loaded l.saved.text l.saved.value)) (hkind : l.isFormula = true) :
    Taken [l] (fun _ => False) e (e.loadFormula l.target l.saved.text l.saved.value) := by
  obtain ⟨hrewritten, hcell, hlink⟩ := loadFormula_spec he l.target hsheet l.saved.text l.saved.value
  refine taken_of_rewritten hrewritten (markedBy_nothing (fun _ => id) _) (hcell.trans hstored.symm) hlink ?_ ?_
    (fun q => ?_) fun q => ?_
  · exact iff_of_true ((mem_insert_iff _ _ _).mpr (Or.inl rfl)) hkind
  · rw [hstored]
    exact iff_of_true ((mem_insert_iff _ _ _).mpr (Or.inl rfl)) rfl
  · show q ∈ (e.take l.target).changes ↔ _
    rw [changes_take, hstored]
    simp
  · refine ⟨False.elim, ?_⟩
    rintro ⟨⟨hother, -⟩, -⟩
    rw [hkind] at hother
    cases hother

/-- **What one load comes to.** -/
theorem taken_loadCell (he : e.Consistent) (hmanual : e.settings.autoRecalculate = false)
    (hok : (e.reply l.call).result = .ok ()) : ∃ M, Taken [l] M e (e.after l.call) := by
  have hok : (e.loadCell l.sheet l.address l.saved).result = .ok () := hok
  show ∃ M, Taken [l] M e (e.loadCell l.sheet l.address l.saved).engine
  unfold loadCell edit at hok ⊢
  cases hlocate : e.locate l.sheet l.address with
  | error problem =>
    rw [hlocate] at hok
    cases hok
  | ok p =>
    obtain rfl : p = l.target := eq_ofAddress_of_locate hlocate
    have hsheet := contains_of_locate hlocate
    rw [perform_ok]
    dsimp only
    have hkind : l.isFormula = isFormulaText l.saved.text := rfl
    unfold isFormulaText at hkind
    split
    · next heq =>
      rw [heq] at hkind
      have hstored : l.stored? e.settings.locale = some (.loaded l.saved.text l.saved.value) := by
        unfold Load.stored?
        rw [heq]
        rfl
      exact ⟨_, taken_loadFormula he hsheet hstored hkind⟩
    · next c rest hequals heq =>
      have hplain : l.isFormula = false := by
        rw [hkind, heq]
        split
        · next heq' => exact absurd (List.cons.inj heq').1 hequals
        · rfl
      have hstored : l.stored? e.settings.locale = some (.constant
          (if c = textMark then .text (String.ofList rest) else Value.ofConstant e.settings.locale l.saved.text)) := by
        unfold Load.stored?
        rw [heq]
        split
        · next heq' => exact absurd (List.cons.inj heq').1 hequals
        · next heq' => rw [(List.cons.inj heq').1, (List.cons.inj heq').2]
        · next heq' => cases heq'
      rw [← apply_ite (e.loadConstant l.target)]
      exact ⟨_, taken_loadConstant he hsheet hstored hplain⟩
    · next heq =>
      rw [heq] at hkind
      have hstored : l.stored? e.settings.locale = none := by
        unfold Load.stored?
        rw [heq]
      exact taken_emptyCell he hmanual hstored hkind

end One

/-! ### Several loads -/

section Several

variable {e e₁ e₂ : Engine} {ls ls₁ ls₂ : List Load} {M M₁ M₂ : Position → Prop}

/-- A cell is filled by one of the loads, or by none. -/
theorem filled_or_other (ls : List Load) (q : Position) : (∃ l ∈ ls, q = l.target) ∨ ∀ l ∈ ls, q ≠ l.target := by
  by_cases hq : ∃ l ∈ ls, q = l.target
  · exact Or.inl hq
  · exact Or.inr fun l hl heq => hq ⟨l, hl, heq⟩

theorem Taken.reads_iff (h : Taken ls M e e₁) {q p : Position} (hq : ∀ l ∈ ls, q ≠ l.target) :
    e₁.graph.Reads q p ↔ e.graph.Reads q p := by
  unfold Reads
  rw [show e₁.graph.precedentsOf q = e.graph.precedentsOf q from congrArg Link.areas (h.link_other q hq)]

/-- A cell that is filled reads nothing any more. -/
theorem Taken.not_reads (h : Taken ls M e e₁) {l : Load} (hl : l ∈ ls) (p : Position) :
    ¬e₁.graph.Reads l.target p := by
  rintro ⟨a, ha, -⟩
  rw [show e₁.graph.precedentsOf l.target = [] from congrArg Link.areas (h.link_loaded l hl)] at ha
  exact List.not_mem_nil ha

/-- Where there was a path before some loads, it is still there, or leads to one of the cells that they replaced. -/
theorem Taken.path (h : Taken ls M e e₁) (he : e.Consistent) {q p : Position} (hpath : ReflTransGen e.graph.Reads q p) :
    ReflTransGen e₁.graph.Reads q p ∨
      ∃ l ∈ ls, (e.workbook.cell? l.target).isSome = true ∧ ReflTransGen e₁.graph.Reads q l.target := by
  induction hpath using ReflTransGen.head_induction_on with
  | refl => exact Or.inl .refl
  | @head q r hreads _ ih =>
    rcases filled_or_other ls q with ⟨l, hl, rfl⟩ | hq
    · exact Or.inr ⟨l, hl, isSome_of_wouldRead ((reads_iff_wouldRead (he.linked _)).mp hreads), .refl⟩
    · have hreads' := (h.reads_iff hq).mpr hreads
      exact ih.imp (.head hreads') fun ⟨l, hl, hstored, hpath⟩ => ⟨l, hl, hstored, .head hreads' hpath⟩

theorem Taken.isSome_cell? (h : Taken ls M e e₁) {q : Position} (hq : ∀ l ∈ ls, q ≠ l.target) :
    (e₁.workbook.cell? q).isSome = (e.workbook.cell? q).isSome := by
  by_cases hM : M q
  · rw [h.marked q hq hM, Option.isSome_map]
  · rw [h.unmarked q hq hM]

theorem Taken.value_eq (h : Taken ls M e e₁) {q : Position} (hq : ∀ l ∈ ls, q ≠ l.target) :
    e₁.workbook.value q = e.workbook.value q := by
  rw [Workbook.value_eq, Workbook.value_eq]
  by_cases hM : M q
  · rw [h.marked q hq hM, Option.map_map]
    rfl
  · rw [h.unmarked q hq hM]

theorem Taken.markDirty_eq (h : Taken ls M e e₁) {q : Position} (hq : ∀ l ∈ ls, q ≠ l.target) :
    (e₁.workbook.cell? q).map Cell.markDirty = (e.workbook.cell? q).map Cell.markDirty := by
  by_cases hM : M q
  · rw [h.marked q hq hM, Option.map_map]
    rfl
  · rw [h.unmarked q hq hM]

/-- What has been filled stays as it is when other cells are loaded. -/
theorem Taken.cell?_of_filled (h : Taken ls M e e₁) {q : Position} (hq : ∀ l ∈ ls, q ≠ l.target)
    (hfilled : (e.workbook.cell? q).map Cell.markDirty = e.workbook.cell? q) :
    e₁.workbook.cell? q = e.workbook.cell? q := by
  by_cases hM : M q
  · rw [h.marked q hq hM, hfilled]
  · rw [h.unmarked q hq hM]

/-- The graph only loses by loads, so a path that it has at the end was there before. -/
theorem Taken.path_before (h : Taken ls M e e₁) {q p : Position} (hpath : ReflTransGen e₁.graph.Reads q p) :
    ReflTransGen e.graph.Reads q p := by
  refine ReflTransGen.mono (fun a b hreads => ?_) _ _ hpath
  exact (h.reads_iff fun l hl heq => h.not_reads hl b (heq ▸ hreads)).mp hreads

/-- A load of another cell spreads marks as it did before some loads. -/
theorem Taken.spreads_iff (h : Taken ls M e e₁) {l : Load} (hl : ∀ l' ∈ ls, l.target ≠ l'.target) :
    e₁.Spreads l ↔ e.Spreads l := by
  unfold Spreads
  rw [h.settings_eq, h.isSome_cell? hl]

/-- **Loads after loads.** -/
theorem Taken.trans (h₁ : Taken ls₁ M₁ e e₁) (h₂ : Taken ls₂ M₂ e₁ e₂) (he₁ : e₁.Consistent)
    (hapart : ∀ l ∈ ls₁, ∀ l' ∈ ls₂, l.target ≠ l'.target) :
    Taken (ls₁ ++ ls₂) (fun q => M₁ q ∨ M₂ q) e e₂ := by
  have hlocale : e₁.settings.locale = e.settings.locale := by rw [h₁.settings_eq]
  have hlater : ∀ l ∈ ls₂, ∀ l' ∈ ls₁, l.target ≠ l'.target := fun l hl l' hl' => (hapart l' hl' l hl).symm
  have hfirst : ∀ {q : Position}, (∀ l ∈ ls₁ ++ ls₂, q ≠ l.target) → ∀ l ∈ ls₁, q ≠ l.target := fun hq l hl =>
    hq l (List.mem_append_left ls₂ hl)
  have hsecond : ∀ {q : Position}, (∀ l ∈ ls₁ ++ ls₂, q ≠ l.target) → ∀ l ∈ ls₂, q ≠ l.target := fun hq l hl =>
    hq l (List.mem_append_right ls₁ hl)
  constructor
  case settings_eq => rw [h₂.settings_eq, h₁.settings_eq]
  case library_eq => rw [h₂.library_eq, h₁.library_eq]
  case names_eq => rw [h₂.names_eq, h₁.names_eq]
  case mailbox_eq => rw [h₂.mailbox_eq, h₁.mailbox_eq]
  case frame => exact h₂.frame.trans h₁.frame
  case loaded =>
    intro l hl
    rcases List.mem_append.mp hl with hl | hl
    · have hcell := h₁.loaded l hl
      rw [h₂.cell?_of_filled (hapart l hl) (by rw [hcell, l.stored?_markDirty]), hcell]
    · rw [h₂.loaded l hl, hlocale]
  case marked =>
    intro q hq hM
    by_cases hM₂ : M₂ q
    · rw [h₂.marked q (hsecond hq) hM₂]
      exact h₁.markDirty_eq (hfirst hq)
    · rw [h₂.unmarked q (hsecond hq) hM₂, h₁.marked q (hfirst hq) (hM.resolve_right hM₂)]
  case unmarked =>
    intro q hq hM
    rw [not_or] at hM
    rw [h₂.unmarked q (hsecond hq) hM.2, h₁.unmarked q (hfirst hq) hM.1]
  case link_loaded =>
    intro l hl
    rcases List.mem_append.mp hl with hl | hl
    · rw [h₂.link_other _ (hapart l hl), h₁.link_loaded l hl]
    · exact h₂.link_loaded l hl
  case link_other =>
    intro q hq
    rw [h₂.link_other q (hsecond hq), h₁.link_other q (hfirst hq)]
  case unread_loaded =>
    intro l hl
    rcases List.mem_append.mp hl with hl | hl
    · rw [h₂.unread_other _ (hapart l hl), h₁.unread_loaded l hl]
    · exact h₂.unread_loaded l hl
  case unread_other =>
    intro q hq
    rw [h₂.unread_other q (hsecond hq), h₁.unread_other q (hfirst hq)]
  case dirty_loaded =>
    intro l hl
    rcases List.mem_append.mp hl with hl | hl
    · rw [h₂.dirty_other _ (hapart l hl), h₁.dirty_loaded l hl, h₁.loaded l hl]
      exact or_iff_left_of_imp And.right
    · rw [h₂.dirty_loaded l hl, hlocale]
  case dirty_other =>
    intro q hq
    rw [h₂.dirty_other q (hsecond hq), h₁.dirty_other q (hfirst hq), h₁.isSome_cell? (hfirst hq), or_assoc,
      ← or_and_right]
  case changes =>
    intro q
    rw [h₂.changes, h₁.changes, or_assoc, hlocale]
    refine or_congr_right ?_
    simp only [List.mem_append, or_and_right, exists_or]
    refine or_congr_right (exists_congr fun l => and_congr_right fun hl => and_congr_right fun heq => ?_)
    rw [heq, h₁.value_eq (hlater l hl)]
  case marks =>
    intro l hl hs q hpath
    rcases List.mem_append.mp hl with hl | hl
    · exact Or.inl (h₁.marks l hl hs q (h₂.path_before hpath))
    · exact Or.inr (h₂.marks l hl ((h₁.spreads_iff (hlater l hl)).mpr hs) q hpath)
  case marked_only =>
    rintro q (hM | hM)
    · obtain ⟨l, hl, hs, hpath⟩ := h₁.marked_only q hM
      rcases h₂.path he₁ hpath with hpath | ⟨l', hl', hstored, hpath⟩
      · exact ⟨l, List.mem_append_left _ hl, hs, hpath⟩
      · refine ⟨l', List.mem_append_right _ hl', ?_, hpath⟩
        cases hkind : l'.isFormula with
        | true => exact Or.inr rfl
        | false => exact Or.inl ((h₁.spreads_iff (hlater l' hl')).mp ⟨hkind, Or.inr hstored⟩)
    · obtain ⟨l, hl, hs, hpath⟩ := h₂.marked_only q hM
      exact ⟨l, List.mem_append_right _ hl, hs.imp_left (h₁.spreads_iff (hlater l hl)).mp, hpath⟩

section Orders

variable (h₁ : Taken ls₁ M₁ e e₁) (h₂ : Taken ls₂ M₂ e e₂) (hmem : ∀ l, l ∈ ls₁ ↔ l ∈ ls₂)
include h₁ h₂ hmem

/-- Two orders of the same loads leave the same links. -/
theorem Taken.link_eq (q : Position) : e₁.graph.link q = e₂.graph.link q := by
  rcases filled_or_other ls₁ q with ⟨l, hl, rfl⟩ | hq
  · rw [h₁.link_loaded l hl, h₂.link_loaded l ((hmem l).mp hl)]
  · rw [h₁.link_other q hq, h₂.link_other q fun l hl => hq l ((hmem l).mpr hl)]

/-- Two orders of the same loads mark the same cells, but for what depends on a formula that has yet to be read. -/
theorem Taken.marks_iff {q : Position} (hq : ¬∃ p ∈ e₁.unread, ReflTransGen e₁.graph.Reads q p) : M₁ q ↔ M₂ q := by
  have hreads : e₁.graph.Reads = e₂.graph.Reads := by
    funext q p
    unfold Reads
    rw [show e₁.graph.precedentsOf q = e₂.graph.precedentsOf q from congrArg Link.areas (h₁.link_eq h₂ hmem q)]
  have hformula : ∀ l ∈ ls₁, l.isFormula = true → ¬ReflTransGen e₁.graph.Reads q l.target := fun l hl hkind hpath =>
    hq ⟨l.target, (h₁.unread_loaded l hl).mpr hkind, hpath⟩
  constructor
  · intro hM
    obtain ⟨l, hl, hs | hkind, hpath⟩ := h₁.marked_only q hM
    · exact h₂.marks l ((hmem l).mp hl) hs q (hreads ▸ hpath)
    · exact absurd hpath (hformula l hl hkind)
  · intro hM
    obtain ⟨l, hl, hs | hkind, hpath⟩ := h₂.marked_only q hM <;> rw [← hreads] at hpath
    · exact h₁.marks l ((hmem l).mpr hl) hs q hpath
    · exact absurd hpath (hformula l ((hmem l).mpr hl) hkind)

/-- **Two orders of the same loads** lead to engines that are alike, but for what depends on a formula that has yet
to be read. -/
theorem Taken.alikeUpTo (he₁ : e₁.Consistent) (he₂ : e₂.Consistent) :
    AlikeUpTo (fun q => ∃ p ∈ e₁.unread, ReflTransGen e₁.graph.Reads q p) e₁ e₂ := by
  have hother : ∀ {q : Position}, (∀ l ∈ ls₁, q ≠ l.target) → ∀ l ∈ ls₂, q ≠ l.target := fun hq l hl =>
    hq l ((hmem l).mpr hl)
  constructor
  case settings_eq => rw [h₁.settings_eq, h₂.settings_eq]
  case library_eq => rw [h₁.library_eq, h₂.library_eq]
  case names_eq => rw [h₁.names_eq, h₂.names_eq]
  case mailbox_eq => rw [h₁.mailbox_eq, h₂.mailbox_eq]
  case frame => exact h₁.frame.trans h₂.frame.symm
  case cell_eq =>
    intro q hpending
    rcases filled_or_other ls₁ q with ⟨l, hl, rfl⟩ | hq
    · rw [h₁.loaded l hl, h₂.loaded l ((hmem l).mp hl)]
    · have hmarks := h₁.marks_iff h₂ hmem hpending
      by_cases hM : M₁ q
      · rw [h₁.marked q hq hM, h₂.marked q (hother hq) (hmarks.mp hM)]
      · rw [h₁.unmarked q hq hM, h₂.unmarked q (hother hq) (mt hmarks.mpr hM)]
  case marked_eq =>
    intro q _
    rcases filled_or_other ls₁ q with ⟨l, hl, rfl⟩ | hq
    · rw [h₁.loaded l hl, h₂.loaded l ((hmem l).mp hl)]
    · rw [h₁.markDirty_eq hq, h₂.markDirty_eq (hother hq)]
  case link_eq => exact h₁.link_eq h₂ hmem
  case symmetric => exact he₁.symmetric
  case symmetric' => exact he₂.symmetric
  case unread =>
    refine .of_forall_mem_iff fun q => ?_
    rcases filled_or_other ls₁ q with ⟨l, hl, rfl⟩ | hq
    · rw [h₁.unread_loaded l hl, h₂.unread_loaded l ((hmem l).mp hl)]
    · rw [h₁.unread_other q hq, h₂.unread_other q (hother hq)]
  case changes =>
    refine .of_forall_mem_iff fun q => ?_
    rw [h₁.changes, h₂.changes]
    exact or_congr_right (exists_congr fun l => and_congr_left fun _ => hmem l)
  case dirty =>
    intro q hpending
    rcases filled_or_other ls₁ q with ⟨l, hl, rfl⟩ | hq
    · rw [h₁.dirty_loaded l hl, h₂.dirty_loaded l ((hmem l).mp hl)]
    · rw [h₁.dirty_other q hq, h₂.dirty_other q (hother hq)]
      refine or_congr_right (and_congr_left fun hstored => h₁.marks_iff h₂ hmem fun hp => ?_)
      rw [← h₁.isSome_cell? hq, hpending hp] at hstored
      cases hstored

end Orders

end Several

/-! ### All loads -/

/-- Whether a load is accepted is up to the sheets and the grid. -/
theorem reply_call_eq_ok {e : Engine} {l : Load} :
    (e.reply l.call).result = .ok () ↔ ∃ p, e.locate l.sheet l.address = .ok p := by
  show (e.perform (e.locate l.sheet l.address) _).result = .ok () ↔ _
  cases e.locate l.sheet l.address with
  | error problem => exact iff_of_false nofun nofun
  | ok p => exact iff_of_true rfl ⟨p, rfl⟩

theorem Taken.reply_call_eq_ok {e e₁ : Engine} {ls : List Load} {M : Position → Prop} (h : Taken ls M e e₁) (l : Load) :
    (e₁.reply l.call).result = .ok () ↔ (e.reply l.call).result = .ok () := by
  rw [Engine.reply_call_eq_ok, Engine.reply_call_eq_ok]
  have hcolumns : e₁.settings.columns = e.settings.columns := by rw [h.settings_eq]
  have hrows : e₁.settings.rows = e.settings.rows := by rw [h.settings_eq]
  exact ⟨fun ⟨p, hp⟩ => ⟨p, locate_of_sameFrame hp hcolumns.symm hrows.symm h.frame.symm⟩,
    fun ⟨p, hp⟩ => ⟨p, locate_of_sameFrame hp hcolumns hrows h.frame⟩⟩

section Runs

variable {e : Engine} {ls : List Load}

theorem consistent_load (he : e.Consistent) (l : Load) : (e.after l.call).Consistent := by
  have hchanges : ChangesTo ErrorValue.identical (fun _ => False) e (e.after l.call) :=
    changesTo_loadCell he l.sheet l.address l.saved
  exact hchanges.consistent

theorem manual_load (he : e.Consistent) (hmanual : e.settings.autoRecalculate = false) {l : Load}
    (hok : (e.reply l.call).result = .ok ()) : (e.after l.call).settings.autoRecalculate = false := by
  obtain ⟨M, htaken⟩ := taken_loadCell he hmanual hok
  rw [htaken.settings_eq, hmanual]

/-- Loads are all accepted exactly if each would be accepted at the start. -/
theorem acceptsAll_iff (he : e.Consistent) (hmanual : e.settings.autoRecalculate = false) :
    e.AcceptsAll (ls.map Load.call) ↔ ∀ l ∈ ls, (e.reply l.call).result = .ok () := by
  induction ls generalizing e with
  | nil => exact iff_of_true trivial fun l hl => absurd hl List.not_mem_nil
  | cons l ls ih =>
    rw [List.forall_mem_cons]
    refine and_congr_right fun hok => ?_
    obtain ⟨M, htaken⟩ := taken_loadCell he hmanual hok
    rw [ih (consistent_load he l) (manual_load he hmanual hok)]
    exact forall₂_congr fun l' _ => htaken.reply_call_eq_ok l'

theorem taken_nil (e : Engine) : Taken [] (fun _ => False) e e where
  settings_eq := rfl
  library_eq := rfl
  names_eq := rfl
  mailbox_eq := rfl
  frame := .refl _
  loaded := fun _ hl => absurd hl List.not_mem_nil
  marked := fun _ _ => False.elim
  unmarked := fun _ _ _ => rfl
  link_loaded := fun _ hl => absurd hl List.not_mem_nil
  link_other := fun _ _ => rfl
  unread_loaded := fun _ hl => absurd hl List.not_mem_nil
  unread_other := fun _ _ => Iff.rfl
  dirty_loaded := fun _ hl => absurd hl List.not_mem_nil
  dirty_other := fun q _ => by simp
  changes := fun q => by simp
  marks := fun _ hl => absurd hl List.not_mem_nil
  marked_only := fun _ => False.elim

/-- **What loading several cells comes to.** -/
theorem taken_run (he : e.Consistent) (hmanual : e.settings.autoRecalculate = false)
    (hapart : (ls.map Load.target).Nodup) (hok : e.AcceptsAll (ls.map Load.call)) :
    (e.run (ls.map Load.call)).Consistent ∧ ∃ M, Taken ls M e (e.run (ls.map Load.call)) := by
  induction ls generalizing e with
  | nil => exact ⟨he, _, taken_nil e⟩
  | cons l ls ih =>
    obtain ⟨hnot, hapart⟩ := List.nodup_cons.mp hapart
    obtain ⟨hok, hrest⟩ := hok
    have he₁ := consistent_load he l
    obtain ⟨M₁, h₁⟩ := taken_loadCell he hmanual hok
    obtain ⟨he₂, M₂, h₂⟩ := ih he₁ (manual_load he hmanual hok) hapart hrest
    refine ⟨he₂, _, h₁.trans h₂ he₁ fun l₁ hl₁ l₂ hl₂ heq => hnot ?_⟩
    rw [← List.mem_singleton.mp hl₁, heq]
    exact List.mem_map.mpr ⟨l₂, hl₂, rfl⟩

end Runs

/-! ### The same state -/

/-- Two engines that hold the same cells, have the same record of what reads what, and hold the same cells for
dirty. -/
structure SameState (e e' : Engine) : Prop where
  cell_eq : ∀ p, e.cell? p = e'.cell? p
  precedents_eq : ∀ p, e.graph.precedentsOf p = e'.graph.precedentsOf p
  readers_eq : ∀ p, (e.graph.readersOf p).toList = (e'.graph.readersOf p).toList
  namesRead_eq : ∀ p, e.graph.namesReadBy p = e'.graph.namesReadBy p
  readersOfName_eq : ∀ name, (e.graph.readersOfName name).toList = (e'.graph.readersOfName name).toList
  unresolved_eq : e.graph.unresolved.toList = e'.graph.unresolved.toList
  dirty_eq : e.dirty.toList = e'.dirty.toList
  unread_eq : e.unread.toList = e'.unread.toList

theorem AlikeUpTo.sameState {e e' : Engine} (h : AlikeUpTo (fun _ => False) e e') : SameState e e' := by
  have hprecedents : ∀ p, e.graph.precedentsOf p = e'.graph.precedentsOf p := fun p => congrArg Link.areas (h.link_eq p)
  have hnames : ∀ p, e.graph.namesReadBy p = e'.graph.namesReadBy p := fun p => congrArg Link.names (h.link_eq p)
  refine ⟨fun p => h.cell_eq p not_false, hprecedents, fun p => ?_, hnames, fun name => ?_, ?_, ?_, h.unread.toList_eq⟩
  · refine Std.TreeSet.Equiv.toList_eq (.of_forall_mem_iff fun q => ?_)
    rw [mem_readersOf h.symmetric, mem_readersOf h.symmetric']
    unfold Reads
    rw [hprecedents]
  · refine Std.TreeSet.Equiv.toList_eq (.of_forall_mem_iff fun q => ?_)
    rw [mem_readersOfName h.symmetric, mem_readersOfName h.symmetric', hnames]
  · refine Std.TreeSet.Equiv.toList_eq (.of_forall_contains_eq fun q => ?_)
    exact congrArg Link.unresolved (h.link_eq q)
  · exact Std.TreeSet.Equiv.toList_eq (.of_forall_mem_iff fun p => h.dirty p False.elim)

/-- **Cells may be loaded in any order.** From an engine that some calls have led to and that makes no passes by
itself, cells are loaded that are all different ones. In another order these loads are accepted as well, and a pass
over the dirty cells afterwards leads to the same state and reports the same. -/
theorem Reachable.loadsInAnyOrder {library : Library} {e : Engine} (h : Reachable library e)
    (hmanual : e.settings.autoRecalculate = false) {ls ls' : List Load} (hapart : (ls.map Load.target).Nodup)
    (hok : e.AcceptsAll (ls.map Load.call)) (hperm : ls.Perm ls') :
    e.AcceptsAll (ls'.map Load.call) ∧
      ∃ report, ((e.run (ls.map Load.call)).recalculate .dirty).result = .ok report ∧
        ((e.run (ls'.map Load.call)).recalculate .dirty).result = .ok report ∧
        SameState ((e.run (ls.map Load.call)).recalculate .dirty).engine
          ((e.run (ls'.map Load.call)).recalculate .dirty).engine := by
  have he := h.consistent
  have hok' : e.AcceptsAll (ls'.map Load.call) :=
    (acceptsAll_iff he hmanual).mpr fun l hl => (acceptsAll_iff he hmanual).mp hok l (hperm.mem_iff.mpr hl)
  obtain ⟨he₁, M₁, h₁⟩ := taken_run he hmanual hapart hok
  obtain ⟨he₂, M₂, h₂⟩ := taken_run he hmanual ((hperm.map Load.target).nodup_iff.mp hapart) hok'
  have halike := h₁.alikeUpTo h₂ (fun l => hperm.mem_iff) he₁ he₂
  obtain ⟨hstate, hreport⟩ := halike.recompute he₁ fun _ hq => hq
  exact ⟨hok', _, rfl, congrArg Except.ok hreport.symm, hstate.sameState⟩

/-- Calls that leave a chain of three cells, a constant and two formulas, and have computed it. -/
def chained : List Call :=
  [.addSheet "S", .setFormula firstSheet (.plain 1 1) "1", .setFormula firstSheet (.plain 2 1) "=A1+1",
    .setFormula firstSheet (.plain 3 1) "=B1*2", .recalculate .dirty]

/-- A constant in place of the first cell of the chain and a formula in place of the second, a cell that is emptied
and was empty, and a formula that reads the end of the chain. -/
def replacedChain : List Load :=
  [⟨firstSheet, .plain 1 1, "5", .number 5⟩, ⟨firstSheet, .plain 2 1, "=D1", .empty⟩,
    ⟨firstSheet, .plain 4 1, "", .empty⟩, ⟨firstSheet, .plain 5 1, "=C1&\"x\"", .text "2x"⟩]

/-- With the constant first, the end of the chain is marked on the way; with the formula first it is not. After the
pass this makes no difference. -/
theorem loadsInAnyOrder_replacedChain :
    ((start {} .standard).run chained).settings.autoRecalculate = false ∧
      (replacedChain.map Load.target).Nodup ∧
      ((start {} .standard).run chained).AcceptsAll (replacedChain.map Load.call) ∧
      (⟨firstSheet, 1, 3⟩ ∈ (((start {} .standard).run chained).run (replacedChain.map Load.call)).dirty.toList ∧
        ⟨firstSheet, 1, 3⟩ ∉
          (((start {} .standard).run chained).run (replacedChain.reverse.map Load.call)).dirty.toList) ∧
      SameState
        ((((start {} .standard).run chained).run (replacedChain.map Load.call)).recalculate .dirty).engine
        ((((start {} .standard).run chained).run (replacedChain.reverse.map Load.call)).recalculate .dirty).engine := by
  have hreachable : Reachable .standard ((start {} .standard).run chained) :=
    (Reachable.start {} ⟨by decide, by decide⟩).run chained
  have hmanual : ((start {} .standard).run chained).settings.autoRecalculate = false := by decide +kernel
  have hapart : (replacedChain.map Load.target).Nodup := by decide +kernel
  have hlocated : ∀ l ∈ replacedChain, (((start {} .standard).run chained).reply l.call).result = .ok () := by
    decide +kernel
  have hok := (acceptsAll_iff hreachable.consistent hmanual).mpr hlocated
  obtain ⟨-, report, -, -, hstate⟩ := hreachable.loadsInAnyOrder hmanual hapart hok (List.reverse_perm _).symm
  exact ⟨hmanual, hapart, hok, ⟨by decide +kernel, by decide +kernel⟩, hstate⟩

end Engine

end Spreadsheet
