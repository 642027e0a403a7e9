import Spreadsheet.Proofs.Storage
import Spreadsheet.Workbook.History

/-!
# Handles: how long a removed sheet stays out of reach

A slot counts how often it was emptied, and a handle has the count at which its sheet moved in. No call
lowers the count (`generation_run`), so the handle of a removed sheet leads nowhere, and no new sheet gets
it, for as long as the count does not come round (`stale_run`). It has 32 bits. Sheets that
come and go in one slot bring it back to where it was, and then a new sheet is found by the old handle
(`not_stale_refilled`).

The lemmas `addSheet_cases`, `removeSheet_cases` and `renameSheet_cases` say slot by slot what an accepted
call does.
-/

namespace Spreadsheet

namespace Workbook

variable {w w' : Workbook}

/-! ### Calls, slot by slot -/

theorem checkSheetName_eq_ok {name : String} : checkSheetName name = .ok () ↔ isSheetName name = true := by
  unfold checkSheetName
  split <;> simp_all

/-- An added sheet moves into the slot emptied last, or into a new one if there is none. -/
theorem addSheet_cases {name : String} {id : SheetId} (h : w.addSheet name = .ok (w', id)) :
    isSheetName name = true ∧ w.sheetId? name = none ∧ w'.order = w.order ++ [id] ∧
      ((w.free = id.index :: w'.free ∧
          id.generation = (w.slots[id.index.toNat]?.map Slot.generation).getD 0 ∧
          w'.slots = w.slots.modify id.index.toNat fun slot => { slot with sheet := some { name } }) ∨
        (w.free = [] ∧ w'.free = [] ∧ id = ⟨UInt32.ofNat w.slots.size, 0⟩ ∧
          w'.slots = w.slots.push ⟨0, some { name }⟩)) := by
  unfold addSheet at h
  split at h
  · cases h
  next hcheck =>
  split at h
  · cases h
  next hname =>
  refine ⟨checkSheetName_eq_ok.mp hcheck, by simpa using hname, ?_⟩
  dsimp only at h
  split at h
  · next index free hfree =>
    cases h
    exact ⟨rfl, Or.inl ⟨hfree, rfl, rfl⟩⟩
  · next hfree =>
    cases h
    exact ⟨rfl, Or.inr ⟨hfree, rfl, rfl, rfl⟩⟩

/-- A removed sheet leaves its slot, which counts that. -/
theorem removeSheet_cases {id : SheetId} {s : Sheet} (h : w.removeSheet id = .ok (w', s)) :
    w.slots[id.index.toNat]? = some ⟨id.generation, some s⟩ ∧ w'.order = w.order.filter (· ≠ id) ∧
      w'.free = id.index :: w.free ∧
      w'.slots = w.slots.modify id.index.toNat fun slot => ⟨slot.generation + 1, none⟩ := by
  have hs := (removeSheet_spec h).1
  unfold removeSheet get at h
  rw [hs] at h
  cases h
  exact ⟨sheet?_eq_some.mp hs, rfl, rfl, rfl⟩

/-- A renamed sheet stays in its slot. -/
theorem renameSheet_cases {id : SheetId} {name old : String} (h : w.renameSheet id name = .ok (w', old)) :
    isSheetName name = true ∧ (∀ id', w.sheetId? name = some id' → id' = id) ∧ w'.order = w.order ∧
      w'.free = w.free ∧ ∃ s, s.name = old ∧ w.slots[id.index.toNat]? = some ⟨id.generation, some s⟩ ∧
        w'.slots = w.slots.modify id.index.toNat fun slot =>
          { slot with sheet := slot.sheet.map fun s => { s with name } } := by
  obtain ⟨hfree, ⟨s, hs, hold⟩, rfl⟩ := renameSheet_spec h
  have hname : isSheetName name = true := by
    unfold renameSheet at h
    split at h
    · cases h
    · next hcheck => exact checkSheetName_eq_ok.mp hcheck
  have hthere : w.contains id = true := by rw [contains, hs]; rfl
  refine ⟨hname, hfree, order_modifySheet .., free_modifySheet .., s, hold, sheet?_eq_some.mp hs, ?_⟩
  rw [modifySheet, if_pos hthere]

/-! ### The counts of the slots -/

/-- A call adds to the count of a slot if it empties the slot, and leaves it alone otherwise. -/
theorem generation_after {index g : UInt32} (hg : w.slots[index.toNat]?.map Slot.generation = some g)
    (c : SheetCall) :
    (w.after c).slots[index.toNat]?.map Slot.generation =
      some (g + UInt32.ofNat (w.empties index c).toNat) := by
  obtain ⟨⟨g', s⟩, hslot, rfl⟩ := Option.map_eq_some_iff.mp hg
  cases c with
  | add name =>
    simp only [after, empties]
    split
    · next w' id h =>
      obtain ⟨-, -, -, ⟨-, -, hslots⟩ | ⟨-, -, -, hslots⟩⟩ := addSheet_cases h
      · rw [hslots, Array.getElem?_modify, hslot]
        split <;> simp
      · have hlt := (Array.getElem?_eq_some_iff.mp hslot).1
        rw [hslots, Array.getElem?_push, if_neg (Nat.ne_of_lt hlt), hslot]
        simp
    · simp [hslot]
  | remove id =>
    simp only [after, empties]
    split
    · next w' t h =>
      obtain ⟨hfound, -, -, hslots⟩ := removeSheet_cases h
      have hthere : w.contains id = true := by rw [contains, sheet?_eq_some.mpr hfound]; rfl
      rw [hslots, Array.getElem?_modify, hslot, hthere]
      by_cases hi : id.index = index
      · simp [hi]
      · have hne : id.index.toNat ≠ index.toNat := fun heq => hi (UInt32.toNat_inj.mp heq)
        have hother : (id.index == index) = false := beq_false_of_ne hi
        simp [hother, hne]
    · next e h =>
      have hgone : w.contains id = false := by
        unfold removeSheet get at h
        cases hs : w.sheet? id with
        | none => rw [contains, hs]; rfl
        | some t => rw [hs] at h; cases h
      simp [hslot, hgone]
  | rename id name =>
    simp only [after, empties]
    split
    · next w' old h =>
      obtain ⟨-, -, -, -, -, -, -, hslots⟩ := renameSheet_cases h
      rw [hslots, Array.getElem?_modify, hslot]
      split <;> simp
    · simp [hslot]

/-- **A slot counts how often it is emptied**, in 32 bits. -/
theorem generation_run {index g : UInt32} (hg : w.slots[index.toNat]?.map Slot.generation = some g)
    (cs : List SheetCall) :
    (w.run cs).slots[index.toNat]?.map Slot.generation = some (g + UInt32.ofNat (w.emptied index cs)) := by
  induction cs generalizing w g with
  | nil => simpa [emptied] using hg
  | cons c cs ih =>
    rw [run_cons, ih (generation_after hg c), emptied, UInt32.ofNat_add, UInt32.add_assoc]

/-- No slot goes. -/
theorem size_le_after (w : Workbook) (c : SheetCall) : w.slots.size ≤ (w.after c).slots.size := by
  refine after_keeps (P := fun w' => w.slots.size ≤ w'.slots.size) (Nat.le_refl _)
    (fun name w' id hadd => ?_) (fun id w' s hremove => ?_) (fun id name w' old hrename => ?_) c
  · obtain ⟨-, -, -, ⟨-, -, hslots⟩ | ⟨-, -, -, hslots⟩⟩ := addSheet_cases hadd <;> rw [hslots] <;> simp
  · obtain ⟨-, -, -, hslots⟩ := removeSheet_cases hremove
    exact Nat.le_of_eq (by rw [hslots, Array.size_modify])
  · obtain ⟨-, -, -, -, -, -, -, hslots⟩ := renameSheet_cases hrename
    exact Nat.le_of_eq (by rw [hslots, Array.size_modify])

theorem size_le_run (w : Workbook) (cs : List SheetCall) : w.slots.size ≤ (w.run cs).slots.size := by
  induction cs generalizing w with
  | nil => exact Nat.le_refl _
  | cons c cs ih => exact Nat.le_trans (size_le_after w c) (ih _)

/-! ### Handles of removed sheets -/

/-- A handle whose count is not that of its slot leads nowhere. -/
theorem sheet?_of_generation {id : SheetId} {g : UInt32}
    (hg : w.slots[id.index.toNat]?.map Slot.generation = some g) (hne : g ≠ id.generation) :
    w.sheet? id = none := by
  obtain ⟨slot, hslot, rfl⟩ := Option.map_eq_some_iff.mp hg
  simp [sheet?, hslot, hne]

/-- No sheet gets a handle whose count is not that of its slot. -/
theorem handle?_of_generation {id : SheetId} {g : UInt32}
    (hg : w.slots[id.index.toNat]?.map Slot.generation = some g) (hne : g ≠ id.generation) (c : SheetCall)
    (hroom : (w.after c).slots.size ≤ UInt32.size) : w.handle? c ≠ some id := by
  intro hid
  cases c with
  | add name =>
    simp only [after] at hroom
    simp only [handle?] at hid
    split at hid
    · next w' made h =>
      cases hid
      rw [h] at hroom
      obtain ⟨-, -, -, ⟨-, hgen, -⟩ | ⟨-, -, hnew, hslots⟩⟩ := addSheet_cases h
      · rw [hg] at hgen
        exact hne hgen.symm
      · -- The slot of a new handle was not there, as long as slots can be counted.
        rw [hslots, Array.size_push] at hroom
        obtain ⟨slot, hslot, -⟩ := Option.map_eq_some_iff.mp hg
        have hlt := (Array.getElem?_eq_some_iff.mp hslot).1
        rw [hnew, UInt32.toNat_ofNat_of_lt' hroom] at hlt
        exact Nat.lt_irrefl _ hlt
    · cases hid
  | remove _ => cases hid
  | rename _ _ => cases hid

/-- A handle stays out of reach while the count of its slot has not come to that of the handle. -/
theorem stale_of_generation {id : SheetId} {g : UInt32} (cs : List SheetCall)
    (hg : w.slots[id.index.toNat]?.map Slot.generation = some g)
    (hne : ∀ n ≤ w.emptied id.index cs, g + UInt32.ofNat n ≠ id.generation)
    (hroom : (w.run cs).slots.size ≤ UInt32.size) : (w.run cs).sheet? id = none ∧ id ∉ w.handles cs := by
  constructor
  · exact sheet?_of_generation (generation_run hg cs) (hne _ (Nat.le_refl _))
  induction cs generalizing w g with
  | nil => exact List.not_mem_nil
  | cons c cs ih =>
    have hnow : g ≠ id.generation := by simpa using hne 0 (Nat.zero_le _)
    have hsize := Nat.le_trans (size_le_run (w.after c) cs) hroom
    rw [handles, List.mem_append, not_or]
    constructor
    · simpa using handle?_of_generation hg hnow c hsize
    · refine ih (generation_after hg c) (fun n hn => ?_) hroom
      rw [UInt32.add_assoc, ← UInt32.ofNat_add]
      exact hne _ (Nat.add_le_add_left hn _)

/-- **A removed sheet stays out of reach**: from its removal on, its handle leads nowhere and is given to no
other sheet, as long as its slot is emptied less than 2^32 times and there are no more slots than handles
can tell apart. -/
theorem stale_run (w : Workbook) {id : SheetId} (hid : w.contains id = true) (cs : List SheetCall)
    (hfew : w.emptied id.index (.remove id :: cs) < UInt32.size)
    (hroom : (w.run (.remove id :: cs)).slots.size ≤ UInt32.size) :
    (w.run (.remove id :: cs)).sheet? id = none ∧ id ∉ w.handles (.remove id :: cs) := by
  obtain ⟨s, hs⟩ := Option.isSome_iff_exists.mp hid
  have hg : w.slots[id.index.toNat]?.map Slot.generation = some id.generation := by
    rw [sheet?_eq_some.mp hs]
    rfl
  have hempties : w.empties id.index (.remove id) = true := by simp [empties, hid]
  have hg' := generation_after hg (.remove id)
  rw [hempties] at hg'
  rw [emptied, hempties, Bool.toNat_true] at hfew
  refine stale_of_generation cs hg' (fun n hn heq => ?_) hroom
  have hcount := congrArg UInt32.toNat heq
  have hbound := id.generation.toNat_lt
  have hsize : UInt32.size = 4294967296 := rfl
  simp only [UInt32.toNat_add, UInt32.toNat_ofNat', Bool.toNat_true] at hcount
  omega

/-- The bounds are kept where slots are emptied a few times and taken by other sheets, the removed one's
last. -/
theorem stale_run_reused :
    ((({} : Workbook).run [.add "A", .add "B"]).run
        [.remove ⟨1, 0⟩, .remove ⟨0, 0⟩, .add "C", .remove ⟨0, 1⟩, .add "b", .rename ⟨1, 0⟩ "D", .add "E"]).sheet?
          ⟨1, 0⟩ = none ∧
      (⟨1, 0⟩ : SheetId) ∉ (({} : Workbook).run [.add "A", .add "B"]).handles
        [.remove ⟨1, 0⟩, .remove ⟨0, 0⟩, .add "C", .remove ⟨0, 1⟩, .add "b", .rename ⟨1, 0⟩ "D", .add "E"] :=
  stale_run _ (by decide +kernel) _ (by decide +kernel) (by decide +kernel)

/-! ### Counts that come round -/

/-- A workbook whose only slot is empty. -/
def emptySlot (g : UInt32) : Workbook := { slots := #[⟨g, none⟩], free := [0] }

/-- A workbook whose only slot has a sheet without cells. -/
def filledSlot (g : UInt32) (name : String) : Workbook :=
  { slots := #[⟨g, some { name }⟩], order := [⟨0, g⟩] }

/-- Sheets that come and go in the first slot, one after the other. -/
def refills (g : UInt32) : Nat → List SheetCall
  | 0 => []
  | n + 1 => .add "S" :: .remove ⟨0, g⟩ :: refills (g + 1) n

theorem addSheet_emptySlot (g : UInt32) {name : String} (hname : isSheetName name = true) :
    (emptySlot g).addSheet name = .ok (filledSlot g name, ⟨0, g⟩) := by
  unfold addSheet
  rw [checkSheetName_eq_ok.mpr hname, show (emptySlot g).sheetId? name = none from rfl]
  rfl

theorem removeSheet_filledSlot (g : UInt32) (name : String) :
    (filledSlot g name).removeSheet ⟨0, g⟩ = .ok (emptySlot (g + 1), { name }) := by
  simp [removeSheet, get, sheet?, filledSlot, emptySlot]

theorem run_refills (g : UInt32) (n : Nat) : (emptySlot g).run (refills g n) = emptySlot (g + UInt32.ofNat n) := by
  induction n generalizing g with
  | zero => simp [refills]
  | succ n ih =>
    have hadd : (emptySlot g).after (.add "S") = filledSlot g "S" := by
      rw [after, addSheet_emptySlot g (by decide +kernel)]
    have hremove : (filledSlot g "S").after (.remove ⟨0, g⟩) = emptySlot (g + 1) := by
      rw [after, removeSheet_filledSlot]
    rw [refills, run_cons, run_cons, hadd, hremove, ih, UInt32.add_assoc, Nat.add_comm, UInt32.ofNat_add]
    rfl

/-- Calls after which the count of a slot is what it was, and one more sheet. -/
theorem found_of_round {calls : List SheetCall} (hround : (emptySlot 1).run calls = emptySlot 0) :
    (⟨0, 0⟩ : SheetId) ∈ (filledSlot 0 "S").handles (.remove ⟨0, 0⟩ :: (calls ++ [.add "T"])) ∧
      ((filledSlot 0 "S").run (.remove ⟨0, 0⟩ :: (calls ++ [.add "T"]))).sheet? ⟨0, 0⟩ =
        some { name := "T" } := by
  have hleft : (filledSlot 0 "S").after (.remove ⟨0, 0⟩) = emptySlot 1 := by
    rw [after, removeSheet_filledSlot]
    rfl
  have hlast : (emptySlot 0).addSheet "T" = .ok (filledSlot 0 "T", ⟨0, 0⟩) :=
    addSheet_emptySlot 0 (by decide +kernel)
  constructor
  · rw [handles, hleft, handles_append, hround, handles, handle?, handle?, hlast]
    simp
  · rw [run_cons, hleft, run_append, hround, run_cons, run_nil, after, hlast]
    rfl

/-- **The count of a slot comes round.** Of 2^32 sheets that come and go in one slot, the first has the
handle that the next sheet gets, and with it that sheet is found. -/
theorem not_stale_refilled :
    ({} : Workbook).handles [.add "S"] = [⟨0, 0⟩] ∧
      (({} : Workbook).run [.add "S"]).contains ⟨0, 0⟩ = true ∧
      (⟨0, 0⟩ : SheetId) ∈ (({} : Workbook).run [.add "S"]).handles
        (.remove ⟨0, 0⟩ :: (refills 1 (UInt32.size - 1) ++ [.add "T"])) ∧
      ((({} : Workbook).run [.add "S"]).run
        (.remove ⟨0, 0⟩ :: (refills 1 (UInt32.size - 1) ++ [.add "T"]))).sheet? ⟨0, 0⟩ = some { name := "T" } := by
  have hfirst : ({} : Workbook).addSheet "S" = .ok (filledSlot 0 "S", ⟨0, 0⟩) := by
    have hcheck : checkSheetName "S" = .ok () := checkSheetName_eq_ok.mpr (by decide +kernel)
    rw [addSheet, hcheck]
    rfl
  have hstart : ({} : Workbook).run [.add "S"] = filledSlot 0 "S" := by
    rw [run_cons, run_nil, after, hfirst]
  have hcount : (1 : UInt32) + UInt32.ofNat (UInt32.size - 1) = 0 := by decide
  have hround : (emptySlot 1).run (refills 1 (UInt32.size - 1)) = emptySlot 0 := by
    rw [run_refills, hcount]
  have hhandle : ({} : Workbook).handles [.add "S"] = [⟨0, 0⟩] := by
    rw [handles, handle?, hfirst]
    rfl
  rw [hstart]
  exact ⟨hhandle, rfl, found_of_round hround⟩

end Workbook

end Spreadsheet
