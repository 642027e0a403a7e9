import Spreadsheet.Proofs.Shifting
import Spreadsheet.Proofs.Invariants

/-!
# Entries: what edits put into a workbook

An edit puts a constant or the text of a formula into a cell, moves cells, and changes sheets, merged regions
and names. Two engines have the same entries (`Engine.SameEntries`) if they agree in all of that, whatever
values their cells show, whether these are dirty, and whatever has been read and linked.

* `sameEntries_recompute` — a pass of any scope enters nothing;
* `sameEntries_after` — every call does the same to the entries of engines that have the same ones, since no
  call looks at a value, a mark or the graph to find out what to enter;
* `sameEntries_run_filter` — so passes, displays and listeners can be left out of any calls.
-/

namespace Spreadsheet

open Grid

/-! ### Entries of cells -/

/-- What was entered in a cell: a constant, or the text of a formula. -/
inductive Entry where
  | constant (v : Value)
  | formula (text : String)

namespace Entry

/-- The text of a formula. -/
def formulaText? : Entry → Option String
  | .constant _ => none
  | .formula text => some text

/-- A formula with another text; a constant stays what it is. -/
def reworded (text : String) : Entry → Entry
  | .constant v => .constant v
  | .formula _ => .formula text

end Entry

namespace Cell

/-- What was entered in a cell. -/
def entry (c : Cell) : Entry :=
  match c.content with
  | .constant v => .constant v
  | .formula f => .formula f.text

theorem entry_formula (text : String) (parsed : Except ErrorValue Expr) :
    (formula text parsed).entry = .formula text := rfl

theorem entry_markDirty (c : Cell) : c.markDirty.entry = c.entry := rfl

theorem entry_buildDisplay (c : Cell) : c.buildDisplay.entry = c.entry := rfl

theorem entry_begin (c : Cell) : c.begin.entry = c.entry := rfl

theorem entry_setLinkError (c : Cell) (e : Option ErrorValue) : (c.setLinkError e).entry = c.entry := by
  obtain ⟨content, value, flags⟩ := c
  cases content <;> rfl

theorem entry_read (c : Cell) (parsed : Except ErrorValue Expr) : (c.read parsed).entry = c.entry := by
  obtain ⟨content, value, flags⟩ := c
  cases content <;> rfl

theorem entry_finish (c : Cell) (v : Value) : (c.finish v).entry = c.entry := by
  unfold finish
  dsimp only
  split <;> rfl

theorem entry_replaceFormula (c : Cell) (text : String) (parsed : Except ErrorValue Expr) :
    (c.replaceFormula text parsed).entry = c.entry.reworded text := by
  obtain ⟨content, value, flags⟩ := c
  cases content <;> rfl

theorem formulaText?_entry (c : Cell) : c.entry.formulaText? = c.formulaText? := by
  obtain ⟨content, value, flags⟩ := c
  cases content <;> rfl

end Cell

/-! ### Entries of sheets -/

namespace Sheet

/-- What there is of a sheet beside the values and marks of its cells. -/
structure Outline where
  name : String
  merges : List Rect
  entry? : Spot → Option Entry

/-- The outline of a sheet. -/
def outline (s : Sheet) : Outline := ⟨s.name, s.merges, fun spot => (s.get? spot).map Cell.entry⟩

variable {s s' : Sheet}

theorem outline_eq_iff : s.outline = s'.outline ↔ s.name = s'.name ∧ s.merges = s'.merges ∧
    ∀ spot, (s.get? spot).map Cell.entry = (s'.get? spot).map Cell.entry := by
  unfold outline
  rw [Outline.mk.injEq, funext_iff]

theorem outline_insert (h : s.outline = s'.outline) (spot : Spot) {c c' : Cell} (hc : c.entry = c'.entry) :
    (s.insert spot c).outline = (s'.insert spot c').outline := by
  obtain ⟨hname, hmerges, hentry⟩ := outline_eq_iff.mp h
  refine outline_eq_iff.mpr ⟨hname, hmerges, fun spot' => ?_⟩
  unfold get? insert at *
  rw [Std.TreeMap.getElem?_insert, Std.TreeMap.getElem?_insert]
  split
  · exact congrArg some hc
  · exact hentry spot'

theorem outline_erase (h : s.outline = s'.outline) (spot : Spot) :
    (s.erase spot).outline = (s'.erase spot).outline := by
  obtain ⟨hname, hmerges, hentry⟩ := outline_eq_iff.mp h
  refine outline_eq_iff.mpr ⟨hname, hmerges, fun spot' => ?_⟩
  unfold get? erase at *
  rw [Std.TreeMap.getElem?_erase, Std.TreeMap.getElem?_erase]
  split
  · rfl
  · exact hentry spot'

theorem outline_modify (h : s.outline = s'.outline) (spot : Spot) {change change' : Cell → Cell}
    (hchange : ∀ c c', c.entry = c'.entry → (change c).entry = (change' c').entry) :
    (s.modify spot change).outline = (s'.modify spot change').outline := by
  obtain ⟨hname, hmerges, hentry⟩ := outline_eq_iff.mp h
  refine outline_eq_iff.mpr ⟨hname, hmerges, fun spot' => ?_⟩
  have hspot := hentry spot'
  unfold get? modify at *
  rw [Std.TreeMap.getElem?_modify, Std.TreeMap.getElem?_modify]
  split
  · next heq =>
    rw [Std.compare_eq_iff_eq.mp heq, Option.map_map, Option.map_map]
    cases hc : s.cells[spot']? with
    | none =>
      rw [hc] at hspot
      rw [Option.map_eq_none_iff.mp hspot.symm]
      rfl
    | some c =>
      rw [hc] at hspot
      obtain ⟨c', hc', heq'⟩ := Option.map_eq_some_iff.mp hspot.symm
      rw [hc']
      exact congrArg some (hchange c c' heq'.symm)
  · exact hspot

/-- A change to a cell that keeps its entry. -/
theorem outline_modify_self (s : Sheet) (spot : Spot) {change : Cell → Cell}
    (hchange : ∀ c, (change c).entry = c.entry) : (s.modify spot change).outline = s.outline := by
  refine outline_eq_iff.mpr ⟨rfl, rfl, fun spot' => ?_⟩
  unfold get? modify
  rw [Std.TreeMap.getElem?_modify]
  split
  · next heq =>
    rw [Std.compare_eq_iff_eq.mp heq, Option.map_map]
    exact Option.map_congr fun c _ => hchange c
  · rfl

/-- The stored cells are listed in the same order. -/
theorem map_toList (h : s.outline = s'.outline) :
    (s.toList.map fun x => (x.1, x.2.entry)) = s'.toList.map fun x => (x.1, x.2.entry) := by
  obtain ⟨-, -, hentry⟩ := outline_eq_iff.mp h
  have hmaps : (s.cells.map fun _ c => c.entry).Equiv (s'.cells.map fun _ c => c.entry) := by
    refine Std.TreeMap.Equiv.of_forall_constGet?_eq fun spot => ?_
    rw [Std.TreeMap.getElem?_map, Std.TreeMap.getElem?_map]
    exact hentry spot
  have hlists := hmaps.toList_eq
  rw [Std.TreeMap.toList_map, Std.TreeMap.toList_map] at hlists
  exact hlists

/-- Sheets with the same outline still have the same one when their cells have moved. -/
theorem outline_remap (h : s.outline = s'.outline) (target : Spot → Option Spot) :
    (s.remap target).outline = (s'.remap target).outline := by
  obtain ⟨hname, hmerges, -⟩ := outline_eq_iff.mp h
  refine outline_eq_iff.mpr ⟨hname, hmerges, ?_⟩
  -- Both sheets are filled in the same order, from cells with the same entries.
  have hlists : List.Forall₂ (fun x y : Spot × Cell => (x.1, x.2.entry) = (y.1, y.2.entry)) s.toList s'.toList := by
    have hmap := map_toList h
    rw [← List.forall₂_eq_eq_eq, List.forall₂_map_left_iff, List.forall₂_map_right_iff] at hmap
    exact hmap
  refine List.rel_foldl (P := fun m m' : Std.TreeMap Spot Cell =>
    ∀ spot : Spot, (m[spot]?).map Cell.entry = (m'[spot]?).map Cell.entry) ?_ (fun _ => rfl) hlists
  rintro m m' hm ⟨old, c⟩ ⟨old', c'⟩ hentry spot
  obtain ⟨rfl, hc⟩ := Prod.mk.inj hentry
  dsimp only
  cases target old with
  | none => exact hm spot
  | some new =>
    dsimp only
    rw [Std.TreeMap.getElem?_insert, Std.TreeMap.getElem?_insert]
    split
    · exact congrArg some hc
    · exact hm spot

theorem outline_remapMerges (h : s.outline = s'.outline) (target : Rect → Option Rect) :
    (s.remapMerges target).outline = (s'.remapMerges target).outline := by
  obtain ⟨hname, hmerges, hentry⟩ := outline_eq_iff.mp h
  refine outline_eq_iff.mpr ⟨hname, ?_, hentry⟩
  unfold remapMerges
  dsimp only
  rw [hmerges]

end Sheet

/-- Two checks come out alike: both refuse for the same reason, or both give results that are related. -/
def ChecksMatch {α β : Type} (R : α → β → Prop) : Except EngineError α → Except EngineError β → Prop
  | .error problem, .error problem' => problem = problem'
  | .ok x, .ok y => R x y
  | _, _ => False

/-! ### Entries of workbooks -/

namespace Workbook

/-- What there is of a slot beside the values and marks of the cells. -/
def outlineOf (slot : Slot) : UInt32 × Option Sheet.Outline := (slot.generation, slot.sheet.map Sheet.outline)

/-- Two workbooks with the same sheets in the same slots, up to the values and marks of their cells. -/
structure SameEntries (w w' : Workbook) : Prop where
  order_eq : w.order = w'.order
  free_eq : w.free = w'.free
  slots_eq : ∀ i : Nat, (w.slots[i]?).map outlineOf = (w'.slots[i]?).map outlineOf

namespace SameEntries

variable {w w' w'' : Workbook}

theorem refl (w : Workbook) : w.SameEntries w := ⟨rfl, rfl, fun _ => rfl⟩

theorem symm (h : w.SameEntries w') : w'.SameEntries w :=
  ⟨h.order_eq.symm, h.free_eq.symm, fun i => (h.slots_eq i).symm⟩

theorem trans (h : w.SameEntries w') (h' : w'.SameEntries w'') : w.SameEntries w'' :=
  ⟨h.order_eq.trans h'.order_eq, h.free_eq.trans h'.free_eq, fun i => (h.slots_eq i).trans (h'.slots_eq i)⟩

theorem size_eq (h : w.SameEntries w') : w.slots.size = w'.slots.size := by
  have hmap : w.slots.map outlineOf = w'.slots.map outlineOf := by
    refine Array.ext_getElem? fun i => ?_
    rw [Array.getElem?_map, Array.getElem?_map]
    exact h.slots_eq i
  have hsize := congrArg Array.size hmap
  rwa [Array.size_map, Array.size_map] at hsize

theorem generation_eq (h : w.SameEntries w') (i : Nat) :
    (w.slots[i]?).map Slot.generation = (w'.slots[i]?).map Slot.generation := by
  have hi := congrArg (Option.map Prod.fst) (h.slots_eq i)
  rwa [Option.map_map, Option.map_map] at hi

/-- A change to one slot of each. -/
theorem slots_modify (h : w.SameEntries w') (i : Nat) {change change' : Slot → Slot}
    (hchange : ∀ slot slot', outlineOf slot = outlineOf slot' → outlineOf (change slot) = outlineOf (change' slot'))
    (j : Nat) : ((w.slots.modify i change)[j]?).map outlineOf = ((w'.slots.modify i change')[j]?).map outlineOf := by
  rw [Array.getElem?_modify, Array.getElem?_modify]
  have hj := h.slots_eq j
  split
  · cases hslot : w.slots[j]? with
    | none =>
      rw [hslot] at hj
      rw [Option.map_eq_none_iff.mp hj.symm]
      rfl
    | some slot =>
      rw [hslot] at hj
      obtain ⟨slot', hslot', heq⟩ := Option.map_eq_some_iff.mp hj.symm
      rw [hslot']
      exact congrArg some (hchange slot slot' heq.symm)
  · exact hj

/-- A slot of one of them is one of the other, with the same outline. -/
theorem slot (h : w.SameEntries w') {i : Nat} {slot : Slot} (hslot : w.slots[i]? = some slot) :
    ∃ slot', w'.slots[i]? = some slot' ∧ slot.generation = slot'.generation ∧
      slot.sheet.map Sheet.outline = slot'.sheet.map Sheet.outline := by
  have hi := h.slots_eq i
  rw [hslot] at hi
  obtain ⟨slot', hslot', heq⟩ := Option.map_eq_some_iff.mp hi.symm
  obtain ⟨hgeneration, hsheet⟩ := Prod.mk.inj heq
  exact ⟨slot', hslot', hgeneration.symm, hsheet.symm⟩

/-- A sheet of one of them is one of the other, with the same outline. -/
theorem sheet? (h : w.SameEntries w') {id : SheetId} {s : Sheet} (hs : w.sheet? id = some s) :
    ∃ s', w'.sheet? id = some s' ∧ s.outline = s'.outline := by
  obtain ⟨⟨generation, sheet⟩, hslot', hgeneration, hsheet⟩ := h.slot (sheet?_eq_some.mp hs)
  obtain ⟨s', rfl, heq⟩ := Option.map_eq_some_iff.mp hsheet.symm
  obtain rfl : id.generation = generation := hgeneration
  exact ⟨s', sheet?_eq_some.mpr hslot', heq.symm⟩

theorem sheet?_eq_none (h : w.SameEntries w') {id : SheetId} (hs : w.sheet? id = none) :
    w'.sheet? id = none := by
  by_contra hsome
  obtain ⟨s', hs'⟩ := Option.ne_none_iff_exists'.mp hsome
  obtain ⟨s, hs₁, -⟩ := h.symm.sheet? hs'
  rw [hs] at hs₁
  cases hs₁

theorem sameFrame (h : w.SameEntries w') : w.SameFrame w' := by
  refine ⟨h.order_eq, funext fun id => ?_⟩
  unfold frame
  cases hs : w.sheet? id with
  | none => rw [h.sheet?_eq_none hs]
  | some s =>
    obtain ⟨s', hs', heq⟩ := h.sheet? hs
    obtain ⟨hname, hmerges, -⟩ := Sheet.outline_eq_iff.mp heq
    rw [hs', Option.map_some, Option.map_some, hname, hmerges]

theorem entry_eq (h : w.SameEntries w') (p : Position) :
    (w.cell? p).map Cell.entry = (w'.cell? p).map Cell.entry := by
  unfold cell?
  cases hs : w.sheet? p.sheet with
  | none => rw [h.sheet?_eq_none hs]
  | some s =>
    obtain ⟨s', hs', heq⟩ := h.sheet? hs
    obtain ⟨-, -, hentry⟩ := Sheet.outline_eq_iff.mp heq
    rw [hs']
    exact hentry p.spot

theorem isSome_cell? (h : w.SameEntries w') (p : Position) : (w.cell? p).isSome = (w'.cell? p).isSome := by
  have hp := congrArg Option.isSome (h.entry_eq p)
  rwa [Option.isSome_map, Option.isSome_map] at hp

/-- A change to the sheets with one handle. -/
theorem modifySheet (h : w.SameEntries w') (id : SheetId) {change change' : Sheet → Sheet}
    (hchange : ∀ s s', w.sheet? id = some s → w'.sheet? id = some s' → s.outline = s'.outline →
      (change s).outline = (change' s').outline) :
    (w.modifySheet id change).SameEntries (w'.modifySheet id change') := by
  refine ⟨?_, ?_, fun i => ?_⟩
  · rw [order_modifySheet, order_modifySheet, h.order_eq]
  · rw [free_modifySheet, free_modifySheet, h.free_eq]
  · unfold Workbook.modifySheet
    rw [← h.sameFrame.contains_eq id]
    split
    · next hcontains =>
      obtain ⟨s, hs⟩ := Option.isSome_iff_exists.mp hcontains
      obtain ⟨s', hs', heq⟩ := h.sheet? hs
      rw [Array.getElem?_modify, Array.getElem?_modify]
      split
      · next hi =>
        rw [← hi, sheet?_eq_some.mp hs, sheet?_eq_some.mp hs']
        exact congrArg (fun outline => some (id.generation, some outline)) (hchange s s' hs hs' heq)
      · exact h.slots_eq i
    · exact h.slots_eq i

theorem insertCell (h : w.SameEntries w') (p : Position) {c c' : Cell} (hc : c.entry = c'.entry) :
    (w.insertCell p c).SameEntries (w'.insertCell p c') :=
  h.modifySheet p.sheet fun _ _ _ _ heq => Sheet.outline_insert heq p.spot hc

theorem eraseCell (h : w.SameEntries w') (p : Position) : (w.eraseCell p).SameEntries (w'.eraseCell p) :=
  h.modifySheet p.sheet fun _ _ _ _ heq => Sheet.outline_erase heq p.spot

theorem modifyCell (h : w.SameEntries w') (p : Position) {change change' : Cell → Cell}
    (hchange : ∀ c c', c.entry = c'.entry → (change c).entry = (change' c').entry) :
    (w.modifyCell p change).SameEntries (w'.modifyCell p change') :=
  h.modifySheet p.sheet fun _ _ _ _ heq => Sheet.outline_modify heq p.spot hchange

end SameEntries

/-- A change to the sheets with one handle that keeps their outlines. -/
theorem sameEntries_modifySheet (w : Workbook) (id : SheetId) {change : Sheet → Sheet}
    (hchange : ∀ s, (change s).outline = s.outline) : (w.modifySheet id change).SameEntries w := by
  refine ⟨order_modifySheet w id change, free_modifySheet w id change, fun i => ?_⟩
  unfold modifySheet
  split
  · rw [Array.getElem?_modify]
    split
    · rw [Option.map_map]
      refine Option.map_congr fun slot _ => congrArg (Prod.mk slot.generation) ?_
      rw [Option.map_map]
      exact Option.map_congr fun s _ => hchange s
    · rfl
  · rfl

/-- A change to a cell that keeps its entry. -/
theorem sameEntries_modifyCell (w : Workbook) (p : Position) {change : Cell → Cell}
    (hchange : ∀ c, (change c).entry = c.entry) : (w.modifyCell p change).SameEntries w :=
  sameEntries_modifySheet w p.sheet fun s => s.outline_modify_self p.spot hchange

/-! ### Sheets that come and go -/

section Sheets

variable {w w' : Workbook} (h : w.SameEntries w')
include h

/-- A handle leads to sheets with the same outline, or is refused. -/
theorem SameEntries.get (id : SheetId) :
    (∃ problem, w.get id = .error problem ∧ w'.get id = .error problem) ∨
      ∃ s s', w.get id = .ok s ∧ w'.get id = .ok s' ∧ s.outline = s'.outline := by
  unfold Workbook.get
  cases hs : w.sheet? id with
  | none =>
    rw [h.sheet?_eq_none hs]
    exact Or.inl ⟨_, rfl, rfl⟩
  | some s =>
    obtain ⟨s', hs', heq⟩ := h.sheet? hs
    rw [hs']
    exact Or.inr ⟨s, s', rfl, rfl, heq⟩

theorem SameEntries.addSheet (name : String) :
    ChecksMatch (fun x y => x.1.SameEntries y.1) (w.addSheet name) (w'.addSheet name) := by
  unfold Workbook.addSheet
  rw [← h.sameFrame.sheetId?_eq, ← h.free_eq, ← h.size_eq]
  cases checkSheetName name with
  | error problem => rfl
  | ok _ =>
    dsimp only
    split
    · rfl
    cases w.free with
    | nil =>
      refine ⟨by rw [h.order_eq], rfl, fun i => ?_⟩
      rw [Array.getElem?_push, Array.getElem?_push, ← h.size_eq]
      split
      · rfl
      · exact h.slots_eq i
    | cons index free =>
      refine ⟨?_, rfl, fun i => h.slots_modify _ (fun slot slot' heq => ?_) i⟩
      · rw [h.order_eq, h.generation_eq]
      · exact congrArg (Prod.mk · _) (Prod.mk.inj heq).1

theorem SameEntries.removeSheet (id : SheetId) :
    ChecksMatch (fun x y => x.1.SameEntries y.1) (w.removeSheet id) (w'.removeSheet id) := by
  unfold Workbook.removeSheet
  rcases h.get id with ⟨problem, hs, hs'⟩ | ⟨s, s', hs, hs', -⟩ <;> rw [hs, hs']
  · rfl
  · refine ⟨?_, ?_, fun i => h.slots_modify _ (fun slot slot' heq => ?_) i⟩
    · rw [h.order_eq]
    · rw [h.free_eq]
    · exact congrArg (fun generation => (generation + 1, none)) (Prod.mk.inj heq).1

theorem SameEntries.renameSheet (id : SheetId) (name : String) :
    ChecksMatch (fun x y => x.1.SameEntries y.1 ∧ x.2 = y.2) (w.renameSheet id name) (w'.renameSheet id name) := by
  unfold Workbook.renameSheet
  rw [← h.sameFrame.sheetId?_eq]
  cases checkSheetName name with
  | error problem => rfl
  | ok _ =>
    dsimp only
    split
    · rfl
    rcases h.get id with ⟨problem, hs, hs'⟩ | ⟨s, s', hs, hs', heq⟩ <;> rw [hs, hs']
    · rfl
    · refine ⟨h.modifySheet id fun t t' _ _ houtline => ?_, (Sheet.outline_eq_iff.mp heq).1⟩
      obtain ⟨-, hmerges, hentry⟩ := Sheet.outline_eq_iff.mp houtline
      exact Sheet.outline_eq_iff.mpr ⟨rfl, hmerges, hentry⟩

/-- The formulas are listed in the same order. -/
theorem SameEntries.formulaTexts_eq : w.formulaTexts = w'.formulaTexts := by
  unfold formulaTexts sheets
  rw [← h.order_eq]
  generalize w.order = ids
  induction ids with
  | nil => rfl
  | cons id ids ih =>
    rw [List.filterMap_cons, List.filterMap_cons]
    cases hs : w.sheet? id with
    | none =>
      rw [h.sheet?_eq_none hs]
      exact ih
    | some s =>
      obtain ⟨s', hs', heq⟩ := h.sheet? hs
      rw [hs']
      have hlists := congrArg (List.filterMap fun x : Spot × Entry => x.2.formulaText?.map fun t => (x.1.on id, t))
        (Sheet.map_toList heq)
      rw [List.filterMap_map, List.filterMap_map] at hlists
      simp only [Function.comp_def, Cell.formulaText?_entry] at hlists
      exact congrArg₂ (· ++ ·) hlists ih

end Sheets

end Workbook

/-! ### Entries of engines -/

/-- The settings without the choice when to recalculate. -/
def Settings.manual (settings : Settings) : Settings := { settings with autoRecalculate := false }

namespace Engine

/-- Two engines with the same names and entries, and with settings that differ only in when to
recalculate. -/
structure SameEntries (e e' : Engine) : Prop where
  settings_eq : e.settings.manual = e'.settings.manual
  library_eq : e.library = e'.library
  names_eq : e.names = e'.names
  workbook : e.workbook.SameEntries e'.workbook

namespace SameEntries

variable {e e' e'' : Engine}

theorem refl (e : Engine) : e.SameEntries e := ⟨rfl, rfl, rfl, .refl _⟩

theorem symm (h : e.SameEntries e') : e'.SameEntries e :=
  ⟨h.settings_eq.symm, h.library_eq.symm, h.names_eq.symm, h.workbook.symm⟩

theorem trans (h : e.SameEntries e') (h' : e'.SameEntries e'') : e.SameEntries e'' :=
  ⟨h.settings_eq.trans h'.settings_eq, h.library_eq.trans h'.library_eq, h.names_eq.trans h'.names_eq,
    h.workbook.trans h'.workbook⟩

theorem locale_eq (h : e.SameEntries e') : e.settings.locale = e'.settings.locale :=
  (congrArg Settings.locale h.settings_eq :)

theorem columns_eq (h : e.SameEntries e') : e.settings.columns = e'.settings.columns :=
  (congrArg Settings.columns h.settings_eq :)

theorem rows_eq (h : e.SameEntries e') : e.settings.rows = e'.settings.rows :=
  (congrArg Settings.rows h.settings_eq :)

theorem limit_eq (h : e.SameEntries e') : e.limit = e'.limit := by
  funext axis
  cases axis
  · exact h.rows_eq
  · exact h.columns_eq

theorem readFormula_eq (h : e.SameEntries e') : e.readFormula = e'.readFormula := by
  unfold readFormula
  rw [h.locale_eq]

theorem scope_eq (h : e.SameEntries e') : e.scope = e'.scope := by
  unfold scope
  rw [h.workbook.sameFrame.scope_eq, h.names_eq]
  unfold Workbook.scope
  rw [h.columns_eq, h.rows_eq]

end SameEntries

/-! ### What enters nothing -/

section Quiet

variable (e : Engine) (p : Position)

theorem sameEntries_relink : (e.relink p).SameEntries e := by
  have hlink : ∀ problem, (e.workbook.modifyCell p fun c => c.setLinkError problem).SameEntries e.workbook :=
    fun problem => Workbook.sameEntries_modifyCell _ _ fun c => c.entry_setLinkError problem
  rcases relink_cases e p with ⟨-, h⟩ | ⟨-, h⟩ | ⟨_, _, -, -, h⟩ | ⟨_, _, -, -, h⟩ <;> rw [h]
  · exact ⟨rfl, rfl, rfl, .refl _⟩
  · exact .refl e
  · exact ⟨rfl, rfl, rfl, hlink _⟩
  · exact ⟨rfl, rfl, rfl, hlink _⟩

theorem sameEntries_markCell : (e.markCell p).SameEntries e := by
  unfold markCell
  split
  · exact ⟨rfl, rfl, rfl, Workbook.sameEntries_modifyCell _ _ Cell.entry_markDirty⟩
  · exact .refl e

theorem sameEntries_relinkAll (ps : List Position) : (e.relinkAll ps).SameEntries e :=
  relinkAll_keeps (P := fun e' => e'.SameEntries e) (fun e' p h => (sameEntries_relink e' p).trans h) (.refl e) ps

theorem sameEntries_markDirty (seeds : List Position) : (e.markDirty seeds).SameEntries e :=
  markDirty_keeps (P := fun e' => e'.SameEntries e) (fun e' p h => (sameEntries_markCell e' p).trans h) (.refl e)
    seeds

theorem sameEntries_readLoaded : (e.readLoaded p).SameEntries e := by
  unfold readLoaded
  split
  · exact sameEntries_relink e p
  · split
    · exact .refl e
    · refine (sameEntries_relink _ p).trans ⟨rfl, rfl, rfl, ?_⟩
      exact Workbook.sameEntries_modifyCell _ _ fun c => c.entry_read _

theorem sameEntries_readAllLoaded : e.readAllLoaded.SameEntries e := by
  unfold readAllLoaded
  dsimp only
  split
  · exact .refl e
  · refine (sameEntries_markDirty _ _).trans ?_
    refine foldl_keeps (P := fun e' => e'.SameEntries e)
      (fun e' p _ h => (sameEntries_readLoaded e' p).trans h) ?_
    exact ⟨rfl, rfl, rfl, .refl _⟩

/-- **A pass of any scope enters nothing.** -/
theorem sameEntries_recompute (scope : PassScope) : (e.recompute scope).1.SameEntries e := by
  have hkept : Pass.Kept e.readAllLoaded.surroundings fun s => s.workbook.SameEntries e.readAllLoaded.workbook := by
    refine Pass.Kept.of_seen (Q := fun w _ => w.SameEntries e.readAllLoaded.workbook) (fun w _ p hw => ?_)
      (fun w _ p hw => ?_) fun s f hs => ?_
    · exact (Workbook.sameEntries_modifyCell _ _ Cell.entry_markDirty).trans hw
    · exact (Workbook.sameEntries_modifyCell _ _ Cell.entry_begin).trans hw
    · exact (Workbook.sameEntries_modifyCell _ _ fun c => c.entry_finish _).trans hs
  have hread := sameEntries_readAllLoaded e
  exact ⟨hread.settings_eq, hread.library_eq, hread.names_eq, (hkept.run (.refl _) scope).trans hread.workbook⟩

theorem sameEntries_afterEdit : e.afterEdit.SameEntries e := by
  unfold afterEdit
  split
  · exact sameEntries_recompute e .dirty
  · exact .refl e

/-- The two ends of every edit enter nothing. -/
theorem sameEntries_relinked (ps seeds : List Position) :
    ((e.relinkAll ps).markDirty seeds).afterEdit.SameEntries e :=
  (sameEntries_afterEdit _).trans ((sameEntries_markDirty _ seeds).trans (sameEntries_relinkAll e ps))

end Quiet

/-! ### What edits enter -/

section Edits

variable {e e' : Engine} (h : e.SameEntries e')
include h

/-- What the two ends of an edit are made from is entered. -/
theorem SameEntries.relinked (ps seeds ps' seeds' : List Position) :
    ((e.relinkAll ps).markDirty seeds).afterEdit.SameEntries ((e'.relinkAll ps').markDirty seeds').afterEdit :=
  (sameEntries_relinked e ps seeds).trans (h.trans (sameEntries_relinked e' ps' seeds').symm)

theorem SameEntries.marked (seeds seeds' : List Position) :
    (e.markDirty seeds).afterEdit.SameEntries (e'.markDirty seeds').afterEdit :=
  h.relinked [] seeds [] seeds'

theorem SameEntries.perform {α α' β β' : Type} {R : α → α' → Prop} {checked : Except EngineError α}
    {checked' : Except EngineError α'} {act : α → Engine × β} {act' : α' → Engine × β'}
    (hchecked : ChecksMatch R checked checked')
    (hact : ∀ x y, R x y → (act x).1.SameEntries (act' y).1) :
    (e.perform checked act).engine.SameEntries (e'.perform checked' act').engine := by
  cases checked with
  | error problem =>
    cases checked' with
    | error problem' => exact h
    | ok y => exact hchecked.elim
  | ok x =>
    cases checked' with
    | error problem' => exact hchecked.elim
    | ok y => exact hact x y hchecked

theorem sameEntries_locate (sheet : SheetId) (a : Address) :
    ChecksMatch Eq (e.locate sheet a) (e'.locate sheet a) := by
  unfold locate
  rw [← h.columns_eq, ← h.rows_eq]
  rcases h.workbook.get sheet with ⟨problem, hs, hs'⟩ | ⟨s, s', hs, hs', -⟩ <;> rw [hs, hs']
  · rfl
  · dsimp only
    split <;> rfl

/-! ### Cells -/

theorem sameEntries_take (p : Position) : (e.take p).SameEntries (e'.take p) := by
  have hsome := h.workbook.isSome_cell? p
  unfold take
  cases hc : e.workbook.cell? p with
  | none =>
    rw [hc] at hsome
    rw [Option.isSome_eq_false_iff.mp hsome.symm |> Option.isNone_iff_eq_none.mp]
    exact h
  | some c =>
    rw [hc] at hsome
    obtain ⟨c', hc'⟩ := Option.isSome_iff_exists.mp hsome.symm
    rw [hc']
    exact ⟨h.settings_eq, h.library_eq, h.names_eq, h.workbook.eraseCell p⟩

theorem sameEntries_store (p : Position) {c c' : Cell} (hc : c.entry = c'.entry) :
    (e.store p c).SameEntries (e'.store p c') :=
  ⟨h.settings_eq, h.library_eq, h.names_eq, h.workbook.insertCell p hc⟩

theorem sameEntries_emptyCell (p : Position) : (e.emptyCell p).SameEntries (e'.emptyCell p) := by
  have hsome := h.workbook.isSome_cell? p
  unfold emptyCell
  cases hc : e.workbook.cell? p with
  | none =>
    rw [hc] at hsome
    rw [Option.isSome_eq_false_iff.mp hsome.symm |> Option.isNone_iff_eq_none.mp]
    exact h
  | some c =>
    rw [hc] at hsome
    obtain ⟨c', hc'⟩ := Option.isSome_iff_exists.mp hsome.symm
    rw [hc']
    have htake := sameEntries_take h p
    refine SameEntries.marked ?_ [p] [p]
    exact ⟨htake.settings_eq, htake.library_eq, htake.names_eq, htake.workbook⟩

theorem sameEntries_putValue (p : Position) (v : Value) : (e.putValue p v).SameEntries (e'.putValue p v) := by
  unfold putValue
  split
  · exact sameEntries_emptyCell h p
  · have hstore := sameEntries_store (sameEntries_take h p) p (c := .constant v) rfl
    refine SameEntries.marked ?_ [p] [p]
    exact ⟨hstore.settings_eq, hstore.library_eq, hstore.names_eq, hstore.workbook⟩

theorem sameEntries_putFormula (p : Position) (text : String) :
    (e.putFormula p text).SameEntries (e'.putFormula p text) := by
  have hstored : ∀ c c' : Cell, c.entry = c'.entry →
      ((((e.take p).store p c).relink p).markDirty [p]).afterEdit.SameEntries
        ((((e'.take p).store p c').relink p).markDirty [p]).afterEdit := fun c c' hc =>
    (sameEntries_store (sameEntries_take h p) p hc).relinked [p] [p] [p] [p]
  have hentry : ∀ (e : Engine) (v : Value), ((Cell.formula text (e.readFormula text)).storeValue v).entry =
      .formula text := fun _ _ => rfl
  unfold putFormula
  dsimp only
  cases e.workbook.cell? p with
  | none =>
    cases e'.workbook.cell? p with
    | none => exact hstored _ _ (Cell.entry_formula _ _)
    | some c' => exact hstored _ _ (hentry e' _).symm
  | some c =>
    cases e'.workbook.cell? p with
    | none => exact hstored _ _ (hentry e _)
    | some c' => exact hstored _ _ ((hentry e _).trans (hentry e' _).symm)

theorem sameEntries_loadCell (sheet : SheetId) (a : Address) (saved : SavedCell) :
    (e.loadCell sheet a saved).engine.SameEntries (e'.loadCell sheet a saved).engine := by
  refine h.perform (sameEntries_locate h sheet a) fun p q hpq => ?_
  obtain rfl : p = q := hpq
  have hconstant : ∀ v, (e.loadConstant p v).SameEntries (e'.loadConstant p v) := fun v =>
    (sameEntries_markDirty _ [p]).trans ((sameEntries_store (sameEntries_take h p) p (c := .constant v) rfl).trans
      (sameEntries_markDirty _ [p]).symm)
  dsimp only
  split
  · have hstore := sameEntries_store (sameEntries_take h p) p (c := .loaded saved.text saved.value) rfl
    exact ⟨hstore.settings_eq, hstore.library_eq, hstore.names_eq, hstore.workbook⟩
  · split
    · exact hconstant _
    · rw [← h.locale_eq]
      exact hconstant _
  · exact sameEntries_emptyCell h p

/-! ### Names and regions -/

theorem sameEntries_definition (name : String) (sheet : SheetId) (rect : Rect) :
    ChecksMatch Eq (e.definition name sheet rect) (e'.definition name sheet rect) := by
  unfold definition fits
  rw [← h.columns_eq, ← h.rows_eq, ← h.names_eq]
  rcases h.workbook.get sheet with ⟨problem, hs, hs'⟩ | ⟨s, s', hs, hs', -⟩ <;> rw [hs, hs']
  · rfl
  · dsimp only
    split
    · cases e.names.define name sheet rect <;> rfl
    · rfl

theorem sameEntries_removeName (name : String) : (e.removeName name).2.SameEntries (e'.removeName name).2 := by
  unfold removeName
  rw [← h.names_eq]
  split
  · exact h
  · refine SameEntries.relinked ?_ _ _ _ _
    exact ⟨h.settings_eq, h.library_eq, rfl, h.workbook⟩

theorem sameEntries_replaceMerges (id : SheetId) (rect : Rect) {s s' : Sheet} (hs : s.outline = s'.outline) :
    (e.replaceMerges id rect s).SameEntries (e'.replaceMerges id rect s') := by
  have hsheets : Engine.SameEntries { e with workbook := e.workbook.modifySheet id fun _ => s }
      { e' with workbook := e'.workbook.modifySheet id fun _ => s' } :=
    ⟨h.settings_eq, h.library_eq, h.names_eq, h.workbook.modifySheet id fun _ _ _ _ _ => hs⟩
  exact hsheets.relinked [] _ [] _

theorem sameEntries_merged (id : SheetId) (rect : Rect) :
    ChecksMatch (fun s s' => s.outline = s'.outline) (e.merged id rect) (e'.merged id rect) := by
  unfold merged fits
  rw [← h.columns_eq, ← h.rows_eq]
  split
  · rcases h.workbook.get id with ⟨problem, hs, hs'⟩ | ⟨s, s', hs, hs', heq⟩ <;> rw [hs, hs']
    · rfl
    · obtain ⟨hname, hmerges, hentry⟩ := Sheet.outline_eq_iff.mp heq
      dsimp only
      unfold Sheet.addMerge
      rw [← hmerges]
      by_cases hrefused : (rect.isSingle || s.merges.any fun m => m.intersects rect) = true
      · rw [if_pos hrefused, if_pos hrefused]
        rfl
      · rw [if_neg hrefused, if_neg hrefused]
        exact Sheet.outline_eq_iff.mpr ⟨hname, rfl, hentry⟩
  · rfl

theorem sameEntries_unmergeCells (id : SheetId) (rect : Rect) :
    (e.unmergeCells id rect).engine.SameEntries (e'.unmergeCells id rect).engine := by
  refine h.perform (R := fun s s' => s.outline = s'.outline) ?_ fun s s' heq => ?_
  · rcases h.workbook.get id with ⟨problem, hs, hs'⟩ | ⟨s, s', hs, hs', heq⟩ <;> rw [hs, hs']
    · rfl
    · exact heq
  · obtain ⟨hname, hmerges, hentry⟩ := Sheet.outline_eq_iff.mp heq
    unfold Sheet.removeMerge
    rw [← hmerges]
    by_cases hrect : rect ∈ s.merges
    · rw [if_pos hrect, if_pos hrect]
      exact sameEntries_replaceMerges h id rect (Sheet.outline_eq_iff.mpr ⟨hname, rfl, hentry⟩)
    · rw [if_neg hrect, if_neg hrect]
      exact h

/-! ### Sheets -/

theorem editedFormulas_eq (edit : Position → Reference → Option String) :
    e.editedFormulas edit = e'.editedFormulas edit := by
  unfold editedFormulas
  rw [h.workbook.formulaTexts_eq, h.locale_eq]

theorem sameEntries_replaceFormula (p : Position) (text : String) :
    (e.replaceFormula p text).SameEntries (e'.replaceFormula p text) := by
  refine ⟨h.settings_eq, h.library_eq, h.names_eq, h.workbook.modifyCell p fun c c' hc => ?_⟩
  rw [Cell.entry_replaceFormula, Cell.entry_replaceFormula, hc]

theorem sameEntries_addSheet (name : String) : (e.addSheet name).engine.SameEntries (e'.addSheet name).engine := by
  have hunresolved : ∀ e : Engine, e.relinkUnresolved.SameEntries e := by
    intro e
    unfold relinkUnresolved
    dsimp only
    split
    · exact .refl e
    · exact (sameEntries_markDirty _ _).trans (sameEntries_relinkAll _ _)
  refine h.perform (h.workbook.addSheet name) fun x y hworkbook => ?_
  refine (sameEntries_afterEdit _).trans ((hunresolved _).trans ?_)
  refine SameEntries.trans ?_ ((hunresolved _).symm.trans (sameEntries_afterEdit _).symm)
  exact ⟨h.settings_eq, h.library_eq, h.names_eq, hworkbook⟩

theorem sameEntries_removeSheet (id : SheetId) :
    (e.removeSheet id).engine.SameEntries (e'.removeSheet id).engine := by
  refine h.perform (h.workbook.removeSheet id) fun x y hworkbook => ?_
  refine SameEntries.relinked ?_ _ _ _ _
  exact ⟨h.settings_eq, h.library_eq, congrArg (·.removeSheet id) h.names_eq, hworkbook⟩

theorem sameEntries_renameSheet (id : SheetId) (name : String) :
    (e.renameSheet id name).engine.SameEntries (e'.renameSheet id name).engine := by
  refine h.perform (h.workbook.renameSheet id name) fun x y hxy => ?_
  obtain ⟨w, old⟩ := x
  obtain ⟨w', old'⟩ := y
  obtain ⟨hworkbook, heq⟩ := hxy
  obtain rfl : old = old' := heq
  have hrenamed : ({ e with workbook := w } : Engine).SameEntries { e' with workbook := w' } :=
    ⟨h.settings_eq, h.library_eq, h.names_eq, hworkbook⟩
  dsimp only
  split
  · exact hrenamed
  · rw [← editedFormulas_eq hrenamed]
    refine SameEntries.relinked ?_ _ _ _ _
    refine List.foldl_rel hrenamed fun entry _ e e' he => ?_
    exact (sameEntries_relink _ _).trans ((sameEntries_replaceFormula he _ _).trans (sameEntries_relink _ _).symm)

/-! ### Lines -/

theorem sameEntries_editable (id : SheetId) (d : LineEdit) :
    ChecksMatch (fun s s' => s.outline = s'.outline) (e.editable id d) (e'.editable id d) := by
  unfold editable
  rw [← h.limit_eq]
  rcases h.workbook.get id with ⟨problem, hs, hs'⟩ | ⟨s, s', hs, hs', heq⟩ <;> rw [hs, hs']
  · rfl
  · dsimp only
    split
    · rfl
    · exact heq

theorem rewrites_eq (id : SheetId) (d : LineEdit) {s s' : Sheet} (hs : s.outline = s'.outline) :
    e.rewrites id d s = e'.rewrites id d s' := by
  unfold rewrites image
  rw [editedFormulas_eq h, h.limit_eq, (Sheet.outline_eq_iff.mp hs).1]

theorem sameEntries_shiftLines (id : SheetId) (d : LineEdit) {s s' : Sheet} (hs : s.outline = s'.outline) :
    (e.shiftLines id d s).SameEntries (e'.shiftLines id d s') := by
  rw [shiftLines_eq, shiftLines_eq, ← rewrites_eq h id d hs]
  refine SameEntries.relinked ?_ _ _ _ _
  have hsheet : (e.movedSheet d s).outline = (e'.movedSheet d s').outline := by
    unfold movedSheet
    rw [← h.limit_eq]
    exact Sheet.outline_remapMerges (Sheet.outline_remap hs _) _
  have hmoved : ({ e with workbook := e.movedWorkbook id d s, names := e.movedNames id d } : Engine).SameEntries
      { e' with workbook := e'.movedWorkbook id d s', names := e'.movedNames id d } := by
    refine ⟨h.settings_eq, h.library_eq, ?_, h.workbook.modifySheet id fun _ _ _ _ _ => hsheet⟩
    show e.movedNames id d = e'.movedNames id d
    unfold movedNames
    rw [h.names_eq, h.limit_eq]
  have hreworded := List.foldl_rel hmoved (l := e.rewrites id d s)
    (f := fun e entry => e.replaceFormula entry.1 entry.2) (g := fun e entry => e.replaceFormula entry.1 entry.2)
    fun entry _ e e' he => sameEntries_replaceFormula he entry.1 entry.2
  exact ⟨hreworded.settings_eq, hreworded.library_eq, hreworded.names_eq, hreworded.workbook⟩

end Edits

/-! ### All calls -/

theorem sameEntries_buildDisplays (e : Engine) : e.buildDisplays.2.SameEntries e := by
  refine ⟨rfl, rfl, rfl, ?_⟩
  unfold buildDisplays
  dsimp only
  refine foldl_keeps (P := fun w : Workbook => w.SameEntries e.workbook) (fun w p _ hw => ?_) (.refl _)
  exact (Workbook.sameEntries_modifyCell w p Cell.entry_buildDisplay).trans hw

end Engine

/-- Whether a call may enter something: it neither makes a pass nor is about displays or a listener. -/
def Call.isEntry : Call → Bool
  | .recalculate _ | .evaluateCell _ _ | .buildDisplays | .listen | .unlisten | .collect => false
  | _ => true

namespace Engine

/-- Passes, displays and listeners enter nothing. -/
theorem sameEntries_of_not_isEntry (e : Engine) {c : Call} (hc : c.isEntry = false) :
    (e.after c).SameEntries e := by
  cases c with
  | recalculate scope =>
    exact perform_keeps (P := fun e' => e'.SameEntries e) (.refl e) fun _ _ => sameEntries_recompute e scope
  | evaluateCell sheet a =>
    show (e.evaluateCell sheet a).engine.SameEntries e
    unfold evaluateCell
    exact perform_keeps (P := fun e' => e'.SameEntries e) (.refl e) fun p _ => sameEntries_recompute e (.cell p)
  | buildDisplays => exact sameEntries_buildDisplays e
  | listen => exact ⟨rfl, rfl, rfl, .refl _⟩
  | unlisten => exact ⟨rfl, rfl, rfl, .refl _⟩
  | collect => exact ⟨rfl, rfl, rfl, .refl _⟩
  | _ => cases hc

/-- **What a call enters does not depend on values, marks and graph.** -/
theorem sameEntries_after {e e' : Engine} (h : e.SameEntries e') (c : Call) :
    (e.after c).SameEntries (e'.after c) := by
  by_cases hc : c.isEntry = false
  · exact (sameEntries_of_not_isEntry e hc).trans (h.trans (sameEntries_of_not_isEntry e' hc).symm)
  cases c with
  | addSheet name =>
    rw [after_addSheet, after_addSheet]
    exact sameEntries_addSheet h name
  | removeSheet sheet => exact sameEntries_removeSheet h sheet
  | renameSheet sheet name => exact sameEntries_renameSheet h sheet name
  | setFormula sheet a text =>
    refine h.perform (sameEntries_locate h sheet a) fun p q hpq => ?_
    obtain rfl : p = q := hpq
    dsimp only
    split
    · exact sameEntries_putFormula h p text
    · rw [← h.locale_eq]
      exact sameEntries_putValue h p _
  | setValue sheet a v =>
    refine h.perform (sameEntries_locate h sheet a) fun p q hpq => ?_
    obtain rfl : p = q := hpq
    exact sameEntries_putValue h p v
  | clearCell sheet a =>
    refine h.perform (sameEntries_locate h sheet a) fun p q hpq => ?_
    obtain rfl : p = q := hpq
    exact sameEntries_emptyCell h p
  | loadCell sheet a saved => exact sameEntries_loadCell h sheet a saved
  | defineName name sheet rect =>
    refine h.perform (sameEntries_definition h name sheet rect) fun names names' heq => ?_
    obtain rfl : names = names' := heq
    refine SameEntries.relinked ?_ _ _ _ _
    exact ⟨h.settings_eq, h.library_eq, rfl, h.workbook⟩
  | removeName name => exact sameEntries_removeName h name
  | mergeCells sheet rect =>
    exact h.perform (sameEntries_merged h sheet rect) fun s s' heq => sameEntries_replaceMerges h sheet rect heq
  | unmergeCells sheet rect => exact sameEntries_unmergeCells h sheet rect
  | editLines sheet d =>
    exact h.perform (sameEntries_editable h sheet d) fun s s' heq => sameEntries_shiftLines h sheet d heq
  | _ => exact absurd rfl hc

theorem sameEntries_run {e e' : Engine} (h : e.SameEntries e') (cs : List Call) :
    (e.run cs).SameEntries (e'.run cs) := by
  induction cs generalizing e e' with
  | nil => exact h
  | cons c cs ih => exact ih (sameEntries_after h c)

/-- **What is entered depends only on the calls that enter something**, and on their order. -/
theorem sameEntries_run_filter (e : Engine) (cs : List Call) :
    (e.run cs).SameEntries (e.run (cs.filter Call.isEntry)) := by
  induction cs generalizing e with
  | nil => exact .refl e
  | cons c cs ih =>
    rw [List.filter_cons]
    split
    · exact ih (e.after c)
    · next hc =>
      have hquiet := sameEntries_of_not_isEntry e (Bool.not_eq_true _ ▸ hc)
      exact (ih (e.after c)).trans (sameEntries_run hquiet _)

end Engine

end Spreadsheet
