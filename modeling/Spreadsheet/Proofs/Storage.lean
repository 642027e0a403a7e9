import Spreadsheet.Proofs.Sets
import Spreadsheet.Workbook.Settings

/-!
# Storage: what a change to a workbook leaves alone

Every change to a workbook is a change to one slot. This module says, sheet by sheet and cell by cell,
what is found after it:

* `sheet?_modifySheet` and the lemmas `cell?_insertCell`, `cell?_eraseCell`, `cell?_modifyCell` — a
  change to one sheet or one cell, and every other sheet and cell as it was;
* `Workbook.SameFrame` — two workbooks that differ in their cells only. References mean the same in
  both (`SameFrame.scope_eq`), and the same cells are hidden;
* `Workbook.WellFormed` — every sheet that is there is listed, and the free slots are empty. Every
  operation on workbooks keeps that.
-/

namespace Spreadsheet

open Grid

/-- Two rectangles that both have a cell share it. -/
theorem Grid.Rect.intersects_of_contains {r r' : Rect} {col row : Nat} (h : r.contains col row = true)
    (h' : r'.contains col row = true) : r.intersects r' = true := by
  unfold contains at h h'
  unfold intersects
  simp only [Bool.and_eq_true, decide_eq_true_eq] at h h' ⊢
  omega

/-- No two merged regions share a cell. -/
def MergesApart (merges : List Rect) : Prop := merges.Pairwise fun m n => m.intersects n = false

namespace Workbook

/-! ### One sheet -/

theorem sheet?_eq_some {w : Workbook} {id : SheetId} {s : Sheet} :
    w.sheet? id = some s ↔ w.slots[id.index.toNat]? = some ⟨id.generation, some s⟩ := by
  unfold sheet?
  split
  · next slot h =>
    rw [h]
    obtain ⟨g, sheet⟩ := slot
    by_cases hg : g = id.generation <;> simp [hg]
  · next h => simp [h]

theorem sheet?_modifySheet (w : Workbook) (id : SheetId) (change : Sheet → Sheet) (id' : SheetId) :
    (w.modifySheet id change).sheet? id' =
      if id' = id then (w.sheet? id).map change else w.sheet? id' := by
  unfold modifySheet
  by_cases hc : w.contains id = true
  · rw [if_pos hc]
    obtain ⟨s, hs⟩ := Option.isSome_iff_exists.mp hc
    have hslot := sheet?_eq_some.mp hs
    by_cases hi : id'.index = id.index
    · by_cases hid : id' = id
      · subst hid
        simp [sheet?, Array.getElem?_modify, hslot]
      · have hg : id.generation ≠ id'.generation := by
          intro hg
          apply hid
          cases id
          cases id'
          simp_all
        simp [sheet?, Array.getElem?_modify, hi, hid, hslot, hg]
    · have hne : id.index.toNat ≠ id'.index.toNat := fun h => hi (UInt32.toNat_inj.mp h).symm
      have hid : id' ≠ id := fun h => hi (congrArg SheetId.index h)
      simp [sheet?, hid, Array.getElem?_modify, hne]
  · rw [if_neg hc]
    have hn : w.sheet? id = none := by simpa [contains] using hc
    split
    · next h => rw [h, hn]; rfl
    · rfl

@[simp]
theorem order_modifySheet (w : Workbook) (id : SheetId) (change : Sheet → Sheet) :
    (w.modifySheet id change).order = w.order := by
  unfold modifySheet
  split <;> rfl

@[simp]
theorem free_modifySheet (w : Workbook) (id : SheetId) (change : Sheet → Sheet) :
    (w.modifySheet id change).free = w.free := by
  unfold modifySheet
  split <;> rfl

/-! ### One cell -/

theorem cell?_eq_some {w : Workbook} {p : Position} {c : Cell} :
    w.cell? p = some c ↔ ∃ s, w.sheet? p.sheet = some s ∧ s.get? p.spot = some c := by
  simp [cell?, Option.bind_eq_some_iff]

theorem contains_of_cell? {w : Workbook} {p : Position} (h : (w.cell? p).isSome = true) :
    w.contains p.sheet = true := by
  obtain ⟨c, hc⟩ := Option.isSome_iff_exists.mp h
  obtain ⟨s, hs, -⟩ := cell?_eq_some.mp hc
  unfold contains
  rw [hs]
  rfl

theorem value_eq (w : Workbook) (p : Position) :
    w.value p = ((w.cell? p).map Cell.value).getD .empty := by
  unfold value cell?
  cases w.sheet? p.sheet with
  | none => rfl
  | some s =>
    show s.value p.spot = ((s.get? p.spot).map Cell.value).getD .empty
    unfold Sheet.value
    cases s.get? p.spot <;> rfl

theorem value_of_cell {w : Workbook} {p : Position} {c : Cell} (h : w.cell? p = some c) :
    w.value p = c.value := by
  rw [value_eq, h]
  rfl

theorem spot_eq_iff {p q : Position} (h : q.sheet = p.sheet) : p.spot = q.spot ↔ q = p := by
  cases p
  cases q
  simp_all [Position.spot, eq_comm]

theorem cell?_insertCell (w : Workbook) (p : Position) (c : Cell) (q : Position) :
    (w.insertCell p c).cell? q =
      if q = p then (if w.contains p.sheet then some c else none) else w.cell? q := by
  unfold insertCell cell?
  rw [sheet?_modifySheet]
  by_cases hs : q.sheet = p.sheet
  · rw [if_pos hs, ← hs]
    cases hw : w.sheet? q.sheet with
    | none => simp [contains, hw]
    | some s =>
      simp [contains, hw, Sheet.get?, Sheet.insert, Std.TreeMap.getElem?_insert, spot_eq_iff hs]
  · have hq : q ≠ p := fun h => hs (congrArg Position.sheet h)
    rw [if_neg hs, if_neg hq]

theorem cell?_eraseCell (w : Workbook) (p q : Position) :
    (w.eraseCell p).cell? q = if q = p then none else w.cell? q := by
  unfold eraseCell cell?
  rw [sheet?_modifySheet]
  by_cases hs : q.sheet = p.sheet
  · rw [if_pos hs, ← hs]
    cases hw : w.sheet? q.sheet with
    | none => simp
    | some s =>
      simp [Sheet.get?, Sheet.erase, Std.TreeMap.getElem?_erase, spot_eq_iff hs]
  · have hq : q ≠ p := fun h => hs (congrArg Position.sheet h)
    rw [if_neg hs, if_neg hq]

theorem cell?_modifyCell (w : Workbook) (p : Position) (change : Cell → Cell) (q : Position) :
    (w.modifyCell p change).cell? q = if q = p then (w.cell? p).map change else w.cell? q := by
  unfold modifyCell cell?
  rw [sheet?_modifySheet]
  by_cases hs : q.sheet = p.sheet
  · rw [if_pos hs, ← hs]
    by_cases hq : q = p
    · subst hq
      cases w.sheet? q.sheet with
      | none => simp
      | some s => simp [Sheet.get?, Sheet.modify]
    · have hspot : p.spot ≠ q.spot := fun h => hq ((spot_eq_iff hs).mp h)
      cases w.sheet? q.sheet with
      | none => simp [hq]
      | some s =>
        simp [hq, Sheet.get?, Sheet.modify, Std.TreeMap.getElem?_modify, hspot]
  · have hq : q ≠ p := fun h => hs (congrArg Position.sheet h)
    rw [if_neg hs, if_neg hq]

theorem value_modifyCell {w : Workbook} {p : Position} {change : Cell → Cell} (h : ∀ c, (change c).value = c.value)
    (q : Position) : (w.modifyCell q change).value p = w.value p := by
  rw [value_eq, value_eq, cell?_modifyCell]
  split
  · next hp =>
    rw [hp]
    cases w.cell? q with
    | none => rfl
    | some c => exact h c
  · rfl

/-- A sheet that keeps its cells keeps those of the workbook. -/
theorem cell?_modifySheet_of_cells {w : Workbook} {id : SheetId} {s t : Sheet}
    (hs : w.sheet? id = some s) (hcells : t.cells = s.cells) (p : Position) :
    (w.modifySheet id fun _ => t).cell? p = w.cell? p := by
  unfold cell?
  rw [sheet?_modifySheet]
  split
  · next hid =>
    rw [hid, hs, Option.map_some, Option.bind_some, Option.bind_some]
    unfold Sheet.get?
    rw [hcells]
  · rfl

/-! ### The frame of a workbook -/

/-- What there is of a sheet beside its cells. -/
def frame (w : Workbook) (id : SheetId) : Option (String × List Rect) :=
  (w.sheet? id).map fun s => (s.name, s.merges)

/-- Two workbooks that differ in their cells only. -/
structure SameFrame (w w' : Workbook) : Prop where
  order_eq : w.order = w'.order
  frame_eq : w.frame = w'.frame

theorem SameFrame.refl (w : Workbook) : w.SameFrame w := ⟨rfl, rfl⟩

theorem SameFrame.symm {w w' : Workbook} (h : w.SameFrame w') : w'.SameFrame w :=
  ⟨h.order_eq.symm, h.frame_eq.symm⟩

theorem SameFrame.trans {w w' w'' : Workbook} (h : w.SameFrame w') (h' : w'.SameFrame w'') :
    w.SameFrame w'' :=
  ⟨h.order_eq.trans h'.order_eq, h.frame_eq.trans h'.frame_eq⟩

theorem contains_eq_frame (w : Workbook) (id : SheetId) : w.contains id = (w.frame id).isSome := by
  simp [contains, frame]

theorem sheetId?_eq_frame (w : Workbook) (name : String) :
    w.sheetId? name = w.order.find? fun id => (w.frame id).any fun f => Text.sameName f.1 name := by
  unfold sheetId?
  congr 1
  funext id
  unfold frame
  cases w.sheet? id <;> rfl

theorem sheetName_eq_frame (w : Workbook) (id : SheetId) :
    (w.sheet? id).map Sheet.name = (w.frame id).map Prod.fst := by
  simp [frame, Function.comp_def]

/-- Whether the regions of a sheet hide a spot. -/
def hides (merges : List Rect) (spot : Spot) : Bool :=
  (merges.find? fun m => m.contains spot.col spot.row).any
    fun m => !(m.left == spot.col && m.top == spot.row)

/-- Of regions that are apart, one hides a spot if it has the spot and does not start there. -/
theorem hides_iff {merges : List Rect} (hapart : MergesApart merges) (spot : Spot) :
    hides merges spot = true ↔ ∃ m ∈ merges, m.contains spot.col spot.row = true ∧
      (m.left == spot.col && m.top == spot.row) = false := by
  unfold hides
  induction merges with
  | nil => simp
  | cons m merges ih =>
    obtain ⟨hm, hrest⟩ := List.pairwise_cons.mp hapart
    by_cases hspot : m.contains spot.col spot.row = true
    · have hfind : (m :: merges).find? (fun m => m.contains spot.col spot.row) = some m :=
        List.find?_cons_of_pos (p := fun m : Rect => m.contains spot.col spot.row) hspot
      rw [hfind, Option.any_some, Bool.not_eq_true']
      constructor
      · exact fun hstart => ⟨m, List.mem_cons_self, hspot, hstart⟩
      · rintro ⟨n, hn, hspot', hstart⟩
        rcases List.mem_cons.mp hn with rfl | hn
        · exact hstart
        · have hfree := hm n hn
          rw [Rect.intersects_of_contains hspot hspot'] at hfree
          cases hfree
    · have hfind : (m :: merges).find? (fun m => m.contains spot.col spot.row) =
          merges.find? fun m => m.contains spot.col spot.row :=
        List.find?_cons_of_neg (p := fun m : Rect => m.contains spot.col spot.row) hspot
      rw [hfind, ih hrest]
      simp [hspot]

theorem isObscured_eq_frame (w : Workbook) (p : Position) :
    w.isObscured p = (w.frame p.sheet).any fun f => hides f.2 p.spot := by
  unfold isObscured frame
  cases w.sheet? p.sheet <;> rfl

section SameFrame

variable {w w' : Workbook}

theorem SameFrame.sheetName_eq (h : w.SameFrame w') (id : SheetId) :
    (w.sheet? id).map Sheet.name = (w'.sheet? id).map Sheet.name := by
  rw [sheetName_eq_frame, sheetName_eq_frame, h.frame_eq]

theorem SameFrame.contains_eq (h : w.SameFrame w') (id : SheetId) : w.contains id = w'.contains id := by
  rw [contains_eq_frame, contains_eq_frame, h.frame_eq]

theorem SameFrame.sheetId?_eq (h : w.SameFrame w') : w.sheetId? = w'.sheetId? := by
  funext name
  rw [sheetId?_eq_frame, sheetId?_eq_frame, h.frame_eq, h.order_eq]

theorem SameFrame.isObscured_eq (h : w.SameFrame w') : w.isObscured = w'.isObscured := by
  funext p
  rw [isObscured_eq_frame, isObscured_eq_frame, h.frame_eq]

/-- References mean the same in workbooks that differ in their cells only. -/
theorem SameFrame.scope_eq (h : w.SameFrame w') (names : NamedAreas) (settings : Settings) :
    w.scope names settings = w'.scope names settings := by
  unfold scope
  rw [h.sheetId?_eq]
  simp only [h.contains_eq]

end SameFrame

/-- References mean the same in workbooks whose sheets have the same names. -/
theorem scope_eq_of_names {w w' : Workbook} (horder : w.order = w'.order)
    (hname : ∀ id, (w.sheet? id).map Sheet.name = (w'.sheet? id).map Sheet.name) (names : NamedAreas)
    (settings : Settings) : w.scope names settings = w'.scope names settings := by
  have hsheetId : w.sheetId? = w'.sheetId? := by
    funext name
    unfold sheetId?
    rw [horder]
    congr 1
    funext id
    have hid := hname id
    cases hs : w.sheet? id with
    | none =>
      cases hs' : w'.sheet? id with
      | none => rfl
      | some s' => simp [hs, hs'] at hid
    | some s =>
      cases hs' : w'.sheet? id with
      | none => simp [hs, hs'] at hid
      | some s' =>
        rw [hs, hs'] at hid
        dsimp only
        rw [Option.some.inj hid]
  have hcontains : ∀ id, w.contains id = w'.contains id := by
    intro id
    have hid := congrArg Option.isSome (hname id)
    rwa [Option.isSome_map, Option.isSome_map] at hid
  unfold scope
  rw [hsheetId]
  simp only [hcontains]

theorem sameFrame_modifySheet (w : Workbook) (id : SheetId) {change : Sheet → Sheet}
    (h : ∀ s, (change s).name = s.name ∧ (change s).merges = s.merges) :
    (w.modifySheet id change).SameFrame w := by
  refine ⟨order_modifySheet w id change, ?_⟩
  funext id'
  unfold frame
  rw [sheet?_modifySheet]
  split
  · next hid =>
    subst hid
    cases w.sheet? id' with
    | none => rfl
    | some s => simp [h s]
  · rfl

theorem sameFrame_insertCell (w : Workbook) (p : Position) (c : Cell) :
    (w.insertCell p c).SameFrame w :=
  sameFrame_modifySheet w p.sheet fun _ => ⟨rfl, rfl⟩

theorem sameFrame_eraseCell (w : Workbook) (p : Position) : (w.eraseCell p).SameFrame w :=
  sameFrame_modifySheet w p.sheet fun _ => ⟨rfl, rfl⟩

theorem sameFrame_modifyCell (w : Workbook) (p : Position) (change : Cell → Cell) :
    (w.modifyCell p change).SameFrame w :=
  sameFrame_modifySheet w p.sheet fun _ => ⟨rfl, rfl⟩

/-! ### Sheets that come and go -/

/-- Every sheet that is there is listed, and the free slots are empty. -/
structure WellFormed (w : Workbook) : Prop where
  listed : ∀ id, w.contains id = true → id ∈ w.order
  free_nodup : w.free.Nodup
  free_empty : ∀ i ∈ w.free, ∃ generation, w.slots[i.toNat]? = some ⟨generation, none⟩

theorem wellFormed_empty : ({} : Workbook).WellFormed :=
  ⟨fun id h => by simp [contains, sheet?] at h, List.nodup_nil, fun i h => by simp at h⟩

theorem WellFormed.modifySheet {w : Workbook} (hw : w.WellFormed) (id : SheetId)
    (change : Sheet → Sheet) : (w.modifySheet id change).WellFormed := by
  constructor
  · intro id' h
    rw [order_modifySheet]
    apply hw.listed
    unfold contains at h ⊢
    rw [sheet?_modifySheet] at h
    split at h
    · next hid => simpa [hid] using h
    · exact h
  · rw [free_modifySheet]
    exact hw.free_nodup
  · intro i hi
    rw [free_modifySheet] at hi
    obtain ⟨g, hg⟩ := hw.free_empty i hi
    unfold Workbook.modifySheet
    split
    · refine ⟨g, ?_⟩
      rw [Array.getElem?_modify, hg]
      split <;> rfl
    · exact ⟨g, hg⟩

/-- What adding a sheet comes to: a handle that led nowhere leads to a sheet without cells, and every
other handle leads where it led. Once 32 bits of slots are used up, the new sheet cannot be reached. -/
theorem addSheet_spec {w w' : Workbook} {name : String} {id : SheetId} (hw : w.WellFormed)
    (h : w.addSheet name = .ok (w', id)) :
    w.sheetId? name = none ∧ w'.order = w.order ++ [id] ∧ ∀ id', w'.sheet? id' = w.sheet? id' ∨
      (id' = id ∧ w.sheet? id' = none ∧ w'.sheet? id' = some { name }) := by
  unfold addSheet at h
  split at h
  · cases h
  split at h
  · cases h
  next hname =>
  have hnone : w.sheetId? name = none := by simpa using hname
  dsimp only at h
  split at h
  · next index free hfree =>
    cases h
    refine ⟨hnone, rfl, fun id' => ?_⟩
    obtain ⟨g, hg⟩ := hw.free_empty index (by simp [hfree])
    by_cases hi : id'.index = index
    · by_cases hgen : id'.generation = g
      · right
        subst hi hgen
        simp [sheet?, hg, Array.getElem?_modify]
      · left
        subst hi
        simp [sheet?, hg, Array.getElem?_modify, Ne.symm hgen]
    · left
      have hne : index.toNat ≠ id'.index.toNat := fun h => hi (UInt32.toNat_inj.mp h).symm
      simp [sheet?, Array.getElem?_modify, hne]
  · cases h
    refine ⟨hnone, rfl, fun id' => ?_⟩
    by_cases hlt : id'.index.toNat < w.slots.size
    · left
      simp [sheet?, Array.getElem?_push, Nat.ne_of_lt hlt]
    · by_cases heq : id'.index.toNat = w.slots.size
      · by_cases hgen : id'.generation = 0
        · right
          refine ⟨?_, ?_, ?_⟩
          · rw [← heq, UInt32.ofNat_toNat, ← hgen]
          · simp [sheet?, heq]
          · simp [sheet?, heq, hgen]
        · left
          simp [sheet?, heq, Ne.symm hgen]
      · left
        simp [sheet?, Array.getElem?_push, heq]

theorem WellFormed.addSheet {w w' : Workbook} {name : String} {id : SheetId} (hw : w.WellFormed)
    (h : w.addSheet name = .ok (w', id)) : w'.WellFormed := by
  obtain ⟨-, horder, hsheet⟩ := addSheet_spec hw h
  constructor
  · intro id' hc
    rw [horder, List.mem_append, List.mem_singleton]
    rcases hsheet id' with heq | ⟨hid, -, -⟩
    · left
      apply hw.listed
      unfold contains at hc ⊢
      rwa [heq] at hc
    · exact Or.inr hid
  all_goals
    unfold Workbook.addSheet at h
    split at h
    · cases h
    split at h
    · cases h
    dsimp only at h
    split at h
  · next hfree =>
    cases h
    have hnd := hw.free_nodup
    rw [hfree] at hnd
    exact hnd.of_cons
  · cases h
    exact List.nodup_nil
  · next index free hfree =>
    cases h
    intro i hi
    have hnd := hw.free_nodup
    rw [hfree, List.nodup_cons] at hnd
    obtain ⟨g, hg⟩ := hw.free_empty i (by rw [hfree]; exact List.mem_cons_of_mem _ hi)
    have hne : index.toNat ≠ i.toNat := by
      intro he
      rw [UInt32.toNat_inj] at he
      exact hnd.1 (he ▸ hi)
    exact ⟨g, by simp [Array.getElem?_modify, hne, hg]⟩
  · cases h
    intro i hi
    cases hi

/-- What removing a sheet comes to: its handle leads nowhere, every other one where it led. -/
theorem removeSheet_spec {w w' : Workbook} {id : SheetId} {s : Sheet}
    (h : w.removeSheet id = .ok (w', s)) :
    w.sheet? id = some s ∧ w'.order = w.order.filter (· ≠ id) ∧
      ∀ id', w'.sheet? id' = if id' = id then none else w.sheet? id' := by
  unfold removeSheet get at h
  split at h
  · cases h
  next s' hs =>
  split at hs
  · next s'' hs' =>
    cases hs
    cases h
    refine ⟨hs', rfl, fun id' => ?_⟩
    have hslot := sheet?_eq_some.mp hs'
    by_cases hi : id'.index = id.index
    · by_cases hid : id' = id
      · subst hid
        simp [sheet?, Array.getElem?_modify, hslot]
      · have hg : id.generation ≠ id'.generation := by
          intro hg
          apply hid
          cases id
          cases id'
          simp_all
        simp [sheet?, Array.getElem?_modify, hi, hid, hslot, hg]
    · have hne : id.index.toNat ≠ id'.index.toNat := fun h => hi (UInt32.toNat_inj.mp h).symm
      have hid : id' ≠ id := fun h => hi (congrArg SheetId.index h)
      simp [sheet?, hid, Array.getElem?_modify, hne]
  · cases hs

theorem WellFormed.removeSheet {w w' : Workbook} {id : SheetId} {s : Sheet} (hw : w.WellFormed)
    (h : w.removeSheet id = .ok (w', s)) : w'.WellFormed := by
  obtain ⟨hs, horder, hsheet⟩ := removeSheet_spec h
  have hslot := sheet?_eq_some.mp hs
  constructor
  · intro id' hc
    unfold contains at hc
    rw [hsheet] at hc
    split at hc
    · cases hc
    · next hid =>
      rw [horder, List.mem_filter]
      exact ⟨hw.listed id' hc, by simpa using hid⟩
  all_goals
    unfold Workbook.removeSheet get at h
    rw [hs] at h
    cases h
  · rw [List.nodup_cons]
    refine ⟨?_, hw.free_nodup⟩
    intro hmem
    obtain ⟨g, hg⟩ := hw.free_empty _ hmem
    rw [hslot] at hg
    cases hg
  · intro i hi
    rcases List.mem_cons.mp hi with rfl | hi
    · exact ⟨id.generation + 1, by simp [Array.getElem?_modify, hslot]⟩
    · obtain ⟨g, hg⟩ := hw.free_empty i hi
      by_cases hn : id.index.toNat = i.toNat
      · exact ⟨g + 1, by simp [Array.getElem?_modify, hn, hg]⟩
      · exact ⟨g, by simp [Array.getElem?_modify, hn, hg]⟩

/-- What renaming a sheet comes to. No other sheet had the new name. -/
theorem renameSheet_spec {w w' : Workbook} {id : SheetId} {name old : String}
    (h : w.renameSheet id name = .ok (w', old)) :
    (∀ id', w.sheetId? name = some id' → id' = id) ∧
      (∃ s, w.sheet? id = some s ∧ s.name = old) ∧ w' = w.modifySheet id fun s => { s with name } := by
  unfold renameSheet get at h
  split at h
  · cases h
  split at h
  · cases h
  next hany =>
  split at h
  · cases h
  next s hs =>
  split at hs
  · next s' hs' =>
    cases hs
    cases h
    refine ⟨fun id' hid' => ?_, ⟨s, hs', rfl⟩, rfl⟩
    simpa [hid'] using hany
  · cases hs

/-! ### Sheets by their names -/

/-- A handle leads to a sheet whose name is a given one, case aside. -/
def IsNamed (w : Workbook) (id : SheetId) (name : String) : Prop :=
  ∃ s, w.sheet? id = some s ∧ Text.sameName s.name name = true

theorem sheetId?_eq_find (w : Workbook) (name : String) :
    w.sheetId? name = w.order.find? fun id => (w.sheet? id).any fun s => Text.sameName s.name name := by
  unfold sheetId?
  congr 1
  funext id
  cases w.sheet? id <;> rfl

theorem any_sheet?_iff {w : Workbook} {id : SheetId} {name : String} :
    ((w.sheet? id).any fun s => Text.sameName s.name name) = true ↔ w.IsNamed id name :=
  Option.any_eq_true _ _

/-- The sheet with a name is the first one in order that has it. -/
theorem sheetId?_eq_some {w : Workbook} {name : String} {id : SheetId} :
    w.sheetId? name = some id ↔ w.IsNamed id name ∧
      ∃ before behind, w.order = before ++ id :: behind ∧ ∀ id' ∈ before, ¬w.IsNamed id' name := by
  rw [sheetId?_eq_find, List.find?_eq_some_iff_append]
  simp only [any_sheet?_iff, Bool.not_eq_true', ← Bool.not_eq_true]

theorem sheetId?_eq_none {w : Workbook} {name : String} :
    w.sheetId? name = none ↔ ∀ id ∈ w.order, ¬w.IsNamed id name := by
  rw [sheetId?_eq_find, List.find?_eq_none]
  simp only [any_sheet?_iff]

/-- A name that a listed sheet has leads to a sheet. -/
theorem exists_sheetId? {w : Workbook} {name : String} {id : SheetId} (hid : id ∈ w.order)
    (h : w.IsNamed id name) : ∃ id', w.sheetId? name = some id' := by
  cases hn : w.sheetId? name with
  | some id' => exact ⟨id', rfl⟩
  | none => exact absurd h (sheetId?_eq_none.mp hn id hid)

/-- A new sheet takes no name from another. -/
theorem sheetId?_addSheet {w w' : Workbook} {name : String} {id : SheetId} (hw : w.WellFormed)
    (h : w.addSheet name = .ok (w', id)) {n : String} {found : SheetId} (hn : w.sheetId? n = some found) :
    w'.sheetId? n = some found := by
  obtain ⟨hfree, horder, hsheet⟩ := addSheet_spec hw h
  obtain ⟨⟨s, hs, hname⟩, before, behind, hsplit, hbefore⟩ := sheetId?_eq_some.mp hn
  have hmem : found ∈ w.order := by
    rw [hsplit]
    exact List.mem_append_right _ List.mem_cons_self
  refine sheetId?_eq_some.mpr ⟨⟨s, ?_, hname⟩, before, behind ++ [id], ?_, ?_⟩
  · rcases hsheet found with heq | ⟨-, hnone, -⟩
    · rw [heq, hs]
    · rw [hs] at hnone
      cases hnone
  · rw [horder, hsplit, List.append_assoc, List.cons_append]
  · rintro id' hid' ⟨s', hs', hname'⟩
    rcases hsheet id' with heq | ⟨-, -, hnew⟩
    · exact hbefore id' hid' ⟨s', heq ▸ hs', hname'⟩
    · -- A sheet of that name was refused.
      rw [hs'] at hnew
      cases hnew
      exact sheetId?_eq_none.mp hfree found hmem
        ⟨s, hs, Text.sameName_trans hname (Text.sameName_symm hname')⟩

/-- A sheet that goes takes its own name only. -/
theorem sheetId?_removeSheet {w w' : Workbook} {id : SheetId} {s : Sheet}
    (h : w.removeSheet id = .ok (w', s)) {n : String} {found : SheetId} :
    (w.sheetId? n = some found → found ≠ id → w'.sheetId? n = some found) ∧
      (w'.sheetId? n = some found → ∃ found', w.sheetId? n = some found') := by
  obtain ⟨-, horder, hsheet⟩ := removeSheet_spec h
  constructor
  · intro hn hne
    obtain ⟨⟨t, ht, hname⟩, before, behind, hsplit, hbefore⟩ := sheetId?_eq_some.mp hn
    refine sheetId?_eq_some.mpr
      ⟨⟨t, ?_, hname⟩, before.filter (· ≠ id), behind.filter (· ≠ id), ?_, ?_⟩
    · rw [hsheet, if_neg hne, ht]
    · rw [horder, hsplit, List.filter_append, List.filter_cons_of_pos (by simpa using hne)]
    · rintro id' hid' ⟨t', ht', hname'⟩
      rw [hsheet] at ht'
      split at ht'
      · cases ht'
      · exact hbefore id' (List.mem_filter.mp hid').1 ⟨t', ht', hname'⟩
  · intro hn
    obtain ⟨⟨t, ht, hname⟩, before, behind, hsplit, -⟩ := sheetId?_eq_some.mp hn
    rw [hsheet] at ht
    split at ht
    · cases ht
    · have hmem : found ∈ w'.order := by
        rw [hsplit]
        exact List.mem_append_right _ List.mem_cons_self
      rw [horder] at hmem
      exact exists_sheetId? (List.mem_filter.mp hmem).1 ⟨t, ht, hname⟩

/-- A sheet that gets another name takes none from another sheet, and gives up its old one only. -/
theorem sheetId?_renameSheet {w w' : Workbook} {id : SheetId} {name old : String}
    (h : w.renameSheet id name = .ok (w', old)) {n : String} (hold : Text.sameName n old = false)
    {found : SheetId} (hn : w.sheetId? n = some found) : w'.sheetId? n = some found := by
  obtain ⟨hrefused, ⟨s, hs, rfl⟩, rfl⟩ := renameSheet_spec h
  obtain ⟨⟨t, ht, hname⟩, before, behind, hsplit, hbefore⟩ := sheetId?_eq_some.mp hn
  have hne : found ≠ id := by
    rintro rfl
    rw [hs] at ht
    cases ht
    rw [Text.sameName_symm hname] at hold
    cases hold
  have hmem : found ∈ w.order := by
    rw [hsplit]
    exact List.mem_append_right _ List.mem_cons_self
  refine sheetId?_eq_some.mpr ⟨⟨t, ?_, hname⟩, before, behind, ?_, ?_⟩
  · rw [sheet?_modifySheet, if_neg hne, ht]
  · rw [order_modifySheet, hsplit]
  · rintro id' hid' ⟨t', ht', hname'⟩
    rw [sheet?_modifySheet] at ht'
    split at ht'
    · -- The new name is that of the sheet found, which then is the renamed one.
      rw [hs] at ht'
      cases ht'
      have hnew : w.IsNamed found name := ⟨t, ht, Text.sameName_trans hname (Text.sameName_symm hname')⟩
      obtain ⟨first, hfirst⟩ := exists_sheetId? hmem hnew
      obtain rfl := hrefused first hfirst
      obtain ⟨⟨u, hu, hnameu⟩, -⟩ := sheetId?_eq_some.mp hfirst
      rw [hs] at hu
      cases hu
      rw [Text.sameName_trans (Text.sameName_symm hname')
        (Text.sameName_symm hnameu)] at hold
      cases hold
    · exact hbefore id' hid' ⟨t', ht', hname'⟩

/-! ### Listings -/

theorem mem_sheets {w : Workbook} (hw : w.WellFormed) {id : SheetId} {s : Sheet} :
    (id, s) ∈ w.sheets ↔ w.sheet? id = some s := by
  unfold sheets
  rw [List.mem_filterMap]
  constructor
  · rintro ⟨id', -, h⟩
    obtain ⟨s', hs', heq⟩ := Option.map_eq_some_iff.mp h
    cases heq
    exact hs'
  · intro h
    exact ⟨id, hw.listed id (by simp [contains, h]), by rw [h]; rfl⟩

/-- The positions of a workbook are those where a cell is stored. -/
theorem mem_positions {w : Workbook} (hw : w.WellFormed) {p : Position} :
    p ∈ w.positions ↔ (w.cell? p).isSome = true := by
  unfold positions
  rw [List.mem_flatMap]
  constructor
  · rintro ⟨⟨id, s⟩, hs, hp⟩
    rw [mem_sheets hw] at hs
    obtain ⟨spot, hspot, rfl⟩ := List.mem_map.mp hp
    have hmem : spot ∈ s.cells := Std.TreeMap.mem_keys.mp hspot
    show ((w.sheet? id).bind fun s => s.cells[spot]?).isSome = true
    rw [hs]
    exact Std.TreeMap.isSome_getElem?_iff_mem.mpr hmem
  · intro h
    obtain ⟨c, hc⟩ := Option.isSome_iff_exists.mp h
    obtain ⟨s, hs, hget⟩ := cell?_eq_some.mp hc
    refine ⟨(p.sheet, s), (mem_sheets hw).mpr hs, List.mem_map.mpr ⟨p.spot, ?_, rfl⟩⟩
    apply Std.TreeMap.mem_keys.mpr
    apply Std.TreeMap.isSome_getElem?_iff_mem.mp
    show (s.get? p.spot).isSome = true
    rw [hget]
    rfl

theorem mem_formulaTexts {w : Workbook} (hw : w.WellFormed) {p : Position} {text : String} :
    (p, text) ∈ w.formulaTexts ↔ ∃ c, w.cell? p = some c ∧ c.formulaText? = some text := by
  unfold formulaTexts
  rw [List.mem_flatMap]
  constructor
  · rintro ⟨⟨id, s⟩, hs, hp⟩
    rw [mem_sheets hw] at hs
    obtain ⟨⟨spot, c⟩, hmem, htext⟩ := List.mem_filterMap.mp hp
    obtain ⟨t, ht, heq⟩ := Option.map_eq_some_iff.mp htext
    cases heq
    have hget := Std.TreeMap.mem_toList_iff_getElem?_eq_some.mp hmem
    exact ⟨c, cell?_eq_some.mpr ⟨s, hs, hget⟩, ht⟩
  · rintro ⟨c, hc, ht⟩
    obtain ⟨s, hs, hget⟩ := cell?_eq_some.mp hc
    refine ⟨(p.sheet, s), (mem_sheets hw).mpr hs, List.mem_filterMap.mpr ⟨(p.spot, c), ?_, ?_⟩⟩
    · exact Std.TreeMap.mem_toList_iff_getElem?_eq_some.mpr hget
    · show c.formulaText?.map (fun t => (p, t)) = some (p, text)
      rw [ht]
      rfl

end Workbook

/-! ### Names whose areas move -/

theorem NamedAreas.entries_adjust (names : NamedAreas) (id : SheetId) (target : Rect → Option Rect)
    (key : String) :
    (names.adjust id target).entries[key]? = (names.entries[key]?).bind (NamedAreas.moved id target) :=
  Std.TreeMap.getElem?_filterMap'

theorem NamedAreas.get?_adjust (names : NamedAreas) (id : SheetId) (target : Rect → Option Rect) (n : String) :
    (names.adjust id target).get? n = (names.get? n).bind (NamedAreas.moved id target) :=
  names.entries_adjust id target (Text.lower n)

end Spreadsheet
