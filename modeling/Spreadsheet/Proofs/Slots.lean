import Spreadsheet.Proofs.Handles
import Spreadsheet.Proofs.Naming

/-!
# Slots: what a workbook says of its sheets

A workbook has its sheets in slots, and beside them a list of the free slots and one of the handles. All
three are changed on their own by every call, and after less than 2^32 calls they still describe the same
sheets (`isConsistent_run`): no slot is lost, no handle is listed twice or out of order, and a name
leads to the sheet that has it.

The invariant behind that is `Workbook.Accounted`. It compares the slots with all handles given out so
far: the handle of a removed sheet has a smaller count than its slot, so that a new handle is different from all
of them.
-/

namespace Spreadsheet

/-- A handle that was given out for a slot: its sheet is there, or the slot was emptied since. -/
def Slot.Follows (slot : Slot) (id : SheetId) : Prop :=
  id.generation.toNat < slot.generation.toNat ∨ id.generation = slot.generation ∧ slot.sheet.isSome = true

namespace Workbook

variable {w w' : Workbook} {made : List SheetId} {n : Nat}

/-! ### Accepted calls on well-formed workbooks -/

/-- An added sheet gets a slot that was empty, or was not there, and no other slot changes. -/
theorem slot_addSheet (hw : w.WellFormed) (hroom : w.slots.size < UInt32.size) {name : String} {id : SheetId}
    (h : w.addSheet name = .ok (w', id)) :
    (w.slots[id.index.toNat]? = some ⟨id.generation, none⟩ ∧ w.free = id.index :: w'.free ∨
        w.slots[id.index.toNat]? = none ∧ id.generation = 0 ∧ w.free = w'.free) ∧
      w'.slots[id.index.toNat]? = some ⟨id.generation, some { name }⟩ ∧
      (∀ i, i ≠ id.index.toNat → w'.slots[i]? = w.slots[i]?) ∧ w'.slots.size ≤ w.slots.size + 1 := by
  obtain ⟨-, -, -, ⟨hfree, hgen, hslots⟩ | ⟨hfree, hfree', rfl, hslots⟩⟩ := addSheet_cases h
  · obtain ⟨g, hg⟩ := hw.free_empty id.index (by simp [hfree])
    rw [hg] at hgen
    cases hgen
    refine ⟨Or.inl ⟨hg, hfree⟩, ?_, fun i hi => ?_, ?_⟩
    · simp [hslots, Array.getElem?_modify, hg]
    · simp [hslots, Array.getElem?_modify, hi.symm]
    · simp [hslots]
  · have hindex : (UInt32.ofNat w.slots.size).toNat = w.slots.size := UInt32.toNat_ofNat_of_lt' hroom
    rw [hindex]
    refine ⟨Or.inr ⟨by simp, rfl, by rw [hfree, hfree']⟩, ?_, fun i hi => ?_, ?_⟩
    · simp [hslots]
    · simp [hslots, Array.getElem?_push, hi]
    · simp [hslots]

/-- A slot with a sheet is left empty, with one more in its count, and no other slot changes. -/
theorem slot_removeSheet {id : SheetId} {s : Sheet} (h : w.removeSheet id = .ok (w', s)) :
    w.slots[id.index.toNat]? = some ⟨id.generation, some s⟩ ∧
      w'.slots[id.index.toNat]? = some ⟨id.generation + 1, none⟩ ∧
      (∀ i, i ≠ id.index.toNat → w'.slots[i]? = w.slots[i]?) ∧ w'.slots.size = w.slots.size := by
  obtain ⟨hslot, -, -, hslots⟩ := removeSheet_cases h
  refine ⟨hslot, ?_, fun i hi => ?_, ?_⟩
  · simp [hslots, Array.getElem?_modify, hslot]
  · simp [hslots, Array.getElem?_modify, hi.symm]
  · simp [hslots]

/-- A renamed sheet keeps its slot, and no other slot changes. -/
theorem slot_renameSheet {id : SheetId} {name old : String} (h : w.renameSheet id name = .ok (w', old)) :
    ∃ s, s.name = old ∧ w.slots[id.index.toNat]? = some ⟨id.generation, some s⟩ ∧
      w'.slots[id.index.toNat]? = some ⟨id.generation, some { s with name }⟩ ∧
      (∀ i, i ≠ id.index.toNat → w'.slots[i]? = w.slots[i]?) ∧ w'.slots.size = w.slots.size := by
  obtain ⟨-, -, -, -, s, hold, hslot, hslots⟩ := renameSheet_cases h
  refine ⟨s, hold, hslot, ?_, fun i hi => ?_, ?_⟩
  · simp [hslots, Array.getElem?_modify, hslot]
  · simp [hslots, Array.getElem?_modify, hi.symm]
  · simp [hslots]

/-! ### One slot changes -/

section OneSlot

variable {index : UInt32} {slot' : Slot} (hslot : w'.slots[index.toNat]? = some slot')
  (hother : ∀ i, i ≠ index.toNat → w'.slots[i]? = w.slots[i]?)
include hslot hother

theorem generation_le_of_slot (h : ∀ (i : Nat) (slot : Slot), w.slots[i]? = some slot → slot.generation.toNat ≤ n)
    (hle : slot'.generation.toNat ≤ n) (i : Nat) (slot : Slot) (hi : w'.slots[i]? = some slot) :
    slot.generation.toNat ≤ n := by
  by_cases heq : i = index.toNat
  · rw [heq, hslot] at hi
    cases hi
    exact hle
  · exact h i slot (hother i heq ▸ hi)

theorem empty_of_slot {i g : UInt32} (hi : w'.slots[i.toNat]? = some ⟨g, none⟩) :
    i = index ∧ slot' = ⟨g, none⟩ ∨ i ≠ index ∧ w.slots[i.toNat]? = some ⟨g, none⟩ := by
  by_cases heq : i = index
  · rw [heq, hslot] at hi
    exact Or.inl ⟨heq, Option.some.inj hi⟩
  · rw [hother _ fun h => heq (UInt32.toNat_inj.mp h)] at hi
    exact Or.inr ⟨heq, hi⟩

theorem follows_of_slot {id : SheetId} (h : ∃ slot, w.slots[id.index.toNat]? = some slot ∧ slot.Follows id)
    (hkeeps : ∀ slot, w.slots[index.toNat]? = some slot → slot.Follows id → slot'.Follows id) :
    ∃ slot, w'.slots[id.index.toNat]? = some slot ∧ slot.Follows id := by
  obtain ⟨slot, hi, hfollows⟩ := h
  by_cases heq : id.index = index
  · rw [heq] at hi ⊢
    exact ⟨slot', hslot, hkeeps slot hi hfollows⟩
  · exact ⟨slot, by rw [hother _ fun h => heq (UInt32.toNat_inj.mp h), hi], hfollows⟩

end OneSlot

/-! ### The account of the handles -/

/-- What relates a workbook to the handles that were given out and the number of calls. -/
structure Accounted (w : Workbook) (made : List SheetId) (n : Nat) : Prop where
  wellFormed : w.WellFormed
  size_le : w.slots.size ≤ n
  generation_le : ∀ (i : Nat) (slot : Slot), w.slots[i]? = some slot → slot.generation.toNat ≤ n
  mem_free : ∀ (index : UInt32) (g : UInt32), w.slots[index.toNat]? = some ⟨g, none⟩ → index ∈ w.free
  follows : ∀ id ∈ made, ∃ slot, w.slots[id.index.toNat]? = some slot ∧ slot.Follows id
  made_nodup : made.Nodup
  order_eq : w.order = made.filter w.contains
  isSheetName : ∀ id s, w.sheet? id = some s → isSheetName s.name = true
  namesDistinct : w.NamesDistinct

theorem accounted_empty : ({} : Workbook).Accounted [] 0 where
  wellFormed := wellFormed_empty
  size_le := Nat.le_refl _
  generation_le i slot h := by simp at h
  mem_free index g h := by simp at h
  follows id h := by simp at h
  made_nodup := List.nodup_nil
  order_eq := rfl
  isSheetName id s h := by simp [sheet?] at h
  namesDistinct := by
    rintro id id' name ⟨s, hs, -⟩
    cases hs

theorem Accounted.mono (h : w.Accounted made n) {m : Nat} (hle : n ≤ m) : w.Accounted made m :=
  { h with
    size_le := Nat.le_trans h.size_le hle
    generation_le := fun i slot hslot => Nat.le_trans (h.generation_le i slot hslot) hle }

/-- The handle of a new sheet was not given out before. -/
theorem Accounted.new (h : w.Accounted made n) {id : SheetId}
    (hslot : w.slots[id.index.toNat]? = some ⟨id.generation, none⟩ ∨ w.slots[id.index.toNat]? = none) :
    id ∉ made := by
  intro hid
  obtain ⟨slot, hslot', hfollows⟩ := h.follows id hid
  rcases hslot with hslot | hslot <;> rw [hslot] at hslot' <;> cases hslot'
  rcases hfollows with hlt | ⟨-, hsome⟩
  · exact Nat.lt_irrefl _ hlt
  · cases hsome

theorem Accounted.addSheet (h : w.Accounted made n) (hfew : n < UInt32.size) {name : String} {id : SheetId}
    (hadd : w.addSheet name = .ok (w', id)) : w'.Accounted (made ++ [id]) (n + 1) := by
  have hroom := Nat.lt_of_le_of_lt h.size_le hfew
  obtain ⟨hname, -, horder, -⟩ := addSheet_cases hadd
  obtain ⟨hbefore, hslot, hother, hsize⟩ := slot_addSheet h.wellFormed hroom hadd
  obtain ⟨-, -, hsheet⟩ := addSheet_spec h.wellFormed hadd
  have hnew : id ∉ made := h.new (hbefore.imp And.left And.left)
  have hfound : w'.contains id = true := by rw [contains, sheet?_eq_some.mpr hslot]; rfl
  constructor
  case wellFormed => exact h.wellFormed.addSheet hadd
  case size_le => exact Nat.le_trans hsize (Nat.succ_le_succ h.size_le)
  case generation_le =>
    refine generation_le_of_slot hslot hother (fun i slot hi => Nat.le_succ_of_le (h.generation_le i slot hi)) ?_
    rcases hbefore with ⟨hempty, -⟩ | ⟨-, hzero, -⟩
    · have hcount := h.generation_le _ _ hempty
      exact Nat.le_succ_of_le hcount
    · simp [hzero]
  case mem_free =>
    intro index g hi
    obtain ⟨-, hfull⟩ | ⟨hne, hi⟩ := empty_of_slot hslot hother hi
    · cases hfull
    · have hmem := h.mem_free index g hi
      rcases hbefore with ⟨-, hfree⟩ | ⟨-, -, hfree⟩
      · exact (List.mem_cons.mp (hfree ▸ hmem)).resolve_left hne
      · exact hfree ▸ hmem
  case follows =>
    intro id' hid'
    rcases List.mem_append.mp hid' with hid' | hid'
    · refine follows_of_slot hslot hother (h.follows id' hid') fun slot hi hfollows => Or.inl ?_
      rcases hbefore with ⟨hempty, -⟩ | ⟨hnone, -⟩
      · rw [hempty] at hi
        cases hi
        exact hfollows.resolve_right fun hcurrent => by cases hcurrent.2
      · rw [hnone] at hi
        cases hi
    · obtain rfl := List.mem_singleton.mp hid'
      exact ⟨_, hslot, Or.inr ⟨rfl, rfl⟩⟩
  case made_nodup => exact List.nodup_append.mpr ⟨h.made_nodup, by simp, by rintro a ha b hb rfl; simp_all⟩
  case order_eq =>
    rw [horder, h.order_eq, List.filter_append, List.filter_singleton, hfound]
    congr 1
    refine List.filter_congr fun id' hid' => ?_
    rcases hsheet id' with heq | ⟨rfl, -⟩
    · rw [contains, contains, heq]
    · exact absurd hid' hnew
  case isSheetName =>
    intro id' s hs
    rcases hsheet id' with heq | ⟨-, -, hnamed⟩
    · exact h.isSheetName id' s (heq ▸ hs)
    · rw [hnamed] at hs
      cases hs
      exact hname
  case namesDistinct => exact h.namesDistinct.addSheet h.wellFormed hadd

theorem Accounted.removeSheet (h : w.Accounted made n) (hfew : n + 1 < UInt32.size) {id : SheetId} {s : Sheet}
    (hremove : w.removeSheet id = .ok (w', s)) : w'.Accounted made (n + 1) := by
  obtain ⟨-, horder, hfree, -⟩ := removeSheet_cases hremove
  obtain ⟨hbefore, hslot, hother, hsize⟩ := slot_removeSheet hremove
  obtain ⟨-, -, hsheet⟩ := removeSheet_spec hremove
  have hcount : id.generation.toNat ≤ n := h.generation_le _ _ hbefore
  have hnext : (id.generation + 1).toNat = id.generation.toNat + 1 := by
    have hsize : UInt32.size = 4294967296 := rfl
    rw [UInt32.toNat_add, UInt32.toNat_one]
    omega
  constructor
  case wellFormed => exact h.wellFormed.removeSheet hremove
  case size_le => exact hsize ▸ Nat.le_succ_of_le h.size_le
  case generation_le =>
    refine generation_le_of_slot hslot hother (fun i slot hi => Nat.le_succ_of_le (h.generation_le i slot hi)) ?_
    rw [hnext]
    exact Nat.succ_le_succ hcount
  case mem_free =>
    intro index g hi
    rw [hfree, List.mem_cons]
    exact (empty_of_slot hslot hother hi).imp And.left fun hi => h.mem_free index g hi.2
  case follows =>
    intro id' hid'
    refine follows_of_slot hslot hother (h.follows id' hid') fun slot hi hfollows => Or.inl ?_
    rw [hbefore] at hi
    cases hi
    rw [hnext]
    rcases hfollows with hlt | ⟨hgen, -⟩
    · exact Nat.lt_succ_of_lt hlt
    · exact hgen ▸ Nat.lt_succ_self _
  case made_nodup => exact h.made_nodup
  case order_eq =>
    rw [horder, h.order_eq, List.filter_filter]
    refine List.filter_congr fun id' _ => ?_
    rw [contains, contains, hsheet]
    split <;> simp_all
  case isSheetName =>
    intro id' t ht
    rw [hsheet] at ht
    split at ht
    · cases ht
    · exact h.isSheetName id' t ht
  case namesDistinct => exact h.namesDistinct.removeSheet hremove

theorem Accounted.renameSheet (h : w.Accounted made n) {id : SheetId} {name old : String}
    (hrename : w.renameSheet id name = .ok (w', old)) : w'.Accounted made n := by
  obtain ⟨hname, -, horder, hfree, -⟩ := renameSheet_cases hrename
  obtain ⟨s, -, hbefore, hslot, hother, hsize⟩ := slot_renameSheet hrename
  obtain ⟨-, -, hmodified⟩ := renameSheet_spec hrename
  have hcontains : w'.contains = w.contains := by
    funext id'
    rw [hmodified, contains, contains, sheet?_modifySheet]
    split
    · next heq => rw [heq, Option.isSome_map]
    · rfl
  constructor
  case wellFormed => exact hmodified ▸ h.wellFormed.modifySheet _ _
  case size_le => exact hsize ▸ h.size_le
  case generation_le =>
    have hcount := h.generation_le _ _ hbefore
    exact generation_le_of_slot hslot hother h.generation_le hcount
  case mem_free =>
    intro index g hi
    obtain ⟨-, hfull⟩ | ⟨-, hi⟩ := empty_of_slot hslot hother hi
    · cases hfull
    · exact hfree ▸ h.mem_free index g hi
  case follows =>
    intro id' hid'
    refine follows_of_slot hslot hother (h.follows id' hid') fun slot hi hfollows => ?_
    rw [hbefore] at hi
    cases hi
    exact hfollows
  case made_nodup => exact h.made_nodup
  case order_eq => rw [horder, h.order_eq, hcontains]
  case isSheetName =>
    intro id' t ht
    rw [hmodified, sheet?_modifySheet] at ht
    split at ht
    · obtain ⟨s', -, rfl⟩ := Option.map_eq_some_iff.mp ht
      exact hname
    · exact h.isSheetName id' t ht
  case namesDistinct => exact h.namesDistinct.renameSheet h.wellFormed hrename

/-- A call, accepted or refused, keeps the account. -/
theorem Accounted.after (h : w.Accounted made n) (hfew : n + 1 < UInt32.size) (c : SheetCall) :
    (w.after c).Accounted (made ++ (w.handle? c).toList) (n + 1) := by
  have hrefused : w.Accounted (made ++ []) (n + 1) := by
    rw [List.append_nil]
    exact h.mono (Nat.le_succ n)
  cases c with
  | add name =>
    simp only [Workbook.after, handle?]
    split
    · next hadd => exact h.addSheet (Nat.lt_of_succ_lt hfew) hadd
    · exact hrefused
  | remove id =>
    simp only [Workbook.after, handle?]
    split
    · next hremove =>
      rw [Option.toList_none, List.append_nil]
      exact h.removeSheet hfew hremove
    · exact hrefused
  | rename id name =>
    simp only [Workbook.after, handle?]
    split
    · next hrename =>
      rw [Option.toList_none, List.append_nil]
      exact (h.renameSheet hrename).mono (Nat.le_succ n)
    · exact hrefused

theorem Accounted.run (h : w.Accounted made n) (cs : List SheetCall) (hfew : n + cs.length < UInt32.size) :
    (w.run cs).Accounted (made ++ w.handles cs) (n + cs.length) := by
  induction cs generalizing w made n with
  | nil => simpa [handles] using h
  | cons c cs ih =>
    rw [List.length_cons] at hfew
    have hnext := ih (h.after (by omega) c) (by omega)
    rw [run_cons, handles, List.length_cons, ← List.append_assoc, Nat.add_comm cs.length, ← Nat.add_assoc]
    exact hnext

/-! ### Workbooks after few calls -/

/-- The slots, the free slots and the order of a workbook describe the same sheets, added in the order in
which the handles were given out, and the sheets are told apart by their names. -/
structure IsConsistent (w : Workbook) (made : List SheetId) : Prop where
  /-- Every slot has an index. -/
  size_lt : w.slots.size < UInt32.size
  /-- The order lists the handles of the occupied slots and no others. -/
  mem_order : ∀ id, id ∈ w.order ↔ ∃ s, w.slots[id.index.toNat]? = some ⟨id.generation, some s⟩
  order_nodup : w.order.Nodup
  /-- The sheets are listed in the order of their handles, none of which was given out twice. -/
  order_eq : w.order = made.filter w.contains
  made_nodup : made.Nodup
  mem_free : ∀ index, index ∈ w.free ↔ ∃ g, w.slots[index.toNat]? = some ⟨g, none⟩
  free_nodup : w.free.Nodup
  isSheetName : ∀ id s, w.sheet? id = some s → isSheetName s.name = true
  names_distinct : ∀ id id' s s', w.sheet? id = some s → w.sheet? id' = some s' →
    Text.lower s.name = Text.lower s'.name → id = id'
  sheetId?_iff : ∀ name id, w.sheetId? name = some id ↔
    ∃ s, w.sheet? id = some s ∧ Text.lower s.name = Text.lower name

/-- Two workbooks that differ in the name of one sheet, which keeps its handle, its place in the order, its
cells and its merged regions. -/
structure SameButName (w w' : Workbook) (id : SheetId) (old new : String) : Prop where
  order_eq : w'.order = w.order
  free_eq : w'.free = w.free
  sheet_eq : ∃ s, w.sheet? id = some s ∧ s.name = old ∧ w'.sheet? id = some { s with name := new }
  others_eq : ∀ id', id' ≠ id → w'.sheet? id' = w.sheet? id'

theorem Accounted.isConsistent (h : w.Accounted made n) (hfew : n < UInt32.size) : w.IsConsistent made := by
  have hsame : ∀ {s t : String}, Text.sameName s t = true ↔ Text.lower s = Text.lower t := by simp [Text.sameName]
  constructor
  case size_lt => exact Nat.lt_of_le_of_lt h.size_le hfew
  case mem_order =>
    intro id
    rw [h.order_eq, List.mem_filter]
    constructor
    · rintro ⟨-, hcontains⟩
      obtain ⟨s, hs⟩ := Option.isSome_iff_exists.mp hcontains
      exact ⟨s, sheet?_eq_some.mp hs⟩
    · rintro ⟨s, hs⟩
      have hcontains : w.contains id = true := by rw [contains, sheet?_eq_some.mpr hs]; rfl
      have hmem := h.wellFormed.listed id hcontains
      rw [h.order_eq] at hmem
      exact List.mem_filter.mp hmem
  case order_nodup => exact h.order_eq ▸ h.made_nodup.filter _
  case order_eq => exact h.order_eq
  case made_nodup => exact h.made_nodup
  case mem_free =>
    intro index
    constructor
    · exact h.wellFormed.free_empty index
    · rintro ⟨g, hg⟩
      exact h.mem_free index g hg
  case free_nodup => exact h.wellFormed.free_nodup
  case isSheetName => exact h.isSheetName
  case names_distinct =>
    intro id id' s s' hs hs' heq
    exact h.namesDistinct id id' s'.name ⟨s, hs, hsame.mpr heq⟩ ⟨s', hs', Text.sameName_refl _⟩
  case sheetId?_iff =>
    intro name id
    constructor
    · intro hfound
      obtain ⟨⟨s, hs, hname⟩, -⟩ := sheetId?_eq_some.mp hfound
      exact ⟨s, hs, hsame.mp hname⟩
    · rintro ⟨s, hs, hname⟩
      exact sheetId?_of_isNamed h.wellFormed h.namesDistinct ⟨s, hs, hsame.mpr hname⟩

theorem sameButName_renameSheet {id : SheetId} {name old : String} (h : w.renameSheet id name = .ok (w', old)) :
    w.SameButName w' id old name := by
  obtain ⟨-, ⟨s, hs, hold⟩, rfl⟩ := renameSheet_spec h
  refine ⟨order_modifySheet .., free_modifySheet .., ⟨s, hs, hold, ?_⟩, fun id' hne => ?_⟩
  · rw [sheet?_modifySheet, if_pos rfl, hs]
    rfl
  · rw [sheet?_modifySheet, if_neg hne]

/-- **After less than 2^32 calls, accepted or refused, a workbook is consistent**, and whatever cells its
sheets have by then, one that is renamed keeps them, its handle and its place. -/
theorem isConsistent_run (cs : List SheetCall) (hfew : cs.length < UInt32.size) :
    (({} : Workbook).run cs).IsConsistent (({} : Workbook).handles cs) ∧
      ∀ (w w' : Workbook) (id : SheetId) (name old : String),
        w.renameSheet id name = .ok (w', old) → w.SameButName w' id old name := by
  have h := accounted_empty.run cs (by rwa [Nat.zero_add])
  rw [List.nil_append, Nat.zero_add] at h
  exact ⟨h.isConsistent hfew, fun w w' id name old => sameButName_renameSheet⟩

/-- Slots are reused out of order, and some calls are refused. -/
theorem isConsistent_reused :
    (({} : Workbook).run [.add "A", .add "B", .add "a", .remove ⟨0, 0⟩, .remove ⟨1, 0⟩, .add "C", .remove ⟨1, 0⟩,
        .add "b", .rename ⟨1, 1⟩ "B", .rename ⟨1, 1⟩ "c"]).IsConsistent
      (({} : Workbook).handles [.add "A", .add "B", .add "a", .remove ⟨0, 0⟩, .remove ⟨1, 0⟩, .add "C",
        .remove ⟨1, 0⟩, .add "b", .rename ⟨1, 1⟩ "B", .rename ⟨1, 1⟩ "c"]) :=
  (isConsistent_run _ (by decide)).1

end Workbook

end Spreadsheet
