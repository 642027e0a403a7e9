import Spreadsheet.Proofs.Frames

/-!
# Naming: the names of sheets

A qualifier is looked up among the sheets in their order, so of two sheets with one name it would find the
first only. There are no two such sheets in a reachable engine (`Reachable.namesDistinct`), and a sheet is
found by its name (`Workbook.sheetId?_of_isNamed`).

Three calls concern names. All others leave them alone (`sameNames_after`).
-/

namespace Spreadsheet

open Grid

namespace Workbook

/-- Two workbooks that list the same sheets by the same names. -/
structure SameNames (w w' : Workbook) : Prop where
  order_eq : w.order = w'.order
  name_eq : ∀ id, (w.sheet? id).map Sheet.name = (w'.sheet? id).map Sheet.name

/-- No two sheets have the same name, case aside. -/
def NamesDistinct (w : Workbook) : Prop :=
  ∀ id id' name, w.IsNamed id name → w.IsNamed id' name → id = id'

variable {w w' w'' : Workbook}

theorem SameNames.refl (w : Workbook) : w.SameNames w := ⟨rfl, fun _ => rfl⟩

theorem SameNames.trans (h : w.SameNames w') (h' : w'.SameNames w'') : w.SameNames w'' :=
  ⟨h.order_eq.trans h'.order_eq, fun id => (h.name_eq id).trans (h'.name_eq id)⟩

theorem SameFrame.sameNames (h : w.SameFrame w') : w.SameNames w' := by
  refine ⟨h.order_eq, fun id => ?_⟩
  rw [sheetName_eq_frame, sheetName_eq_frame, h.frame_eq]

/-- A sheet with other cells and regions keeps its name. -/
theorem sameNames_modifySheet {id : SheetId} {s t : Sheet} (hs : w.sheet? id = some s) (hname : t.name = s.name) :
    (w.modifySheet id fun _ => t).SameNames w := by
  refine ⟨order_modifySheet w id _, fun id' => ?_⟩
  rw [sheet?_modifySheet]
  split
  · next heq =>
    rw [heq, hs]
    exact congrArg some hname
  · rfl

theorem SameNames.contains_eq (h : w.SameNames w') (id : SheetId) : w.contains id = w'.contains id := by
  have hname := congrArg Option.isSome (h.name_eq id)
  rwa [Option.isSome_map, Option.isSome_map] at hname

theorem isNamed_iff {id : SheetId} {name : String} :
    w.IsNamed id name ↔ ∃ n, (w.sheet? id).map Sheet.name = some n ∧ Text.sameName n name = true := by
  constructor
  · rintro ⟨s, hs, hname⟩
    exact ⟨s.name, by rw [hs]; rfl, hname⟩
  · rintro ⟨n, hn, hname⟩
    obtain ⟨s, hs, rfl⟩ := Option.map_eq_some_iff.mp hn
    exact ⟨s, hs, hname⟩

theorem SameNames.namesDistinct (h : w.SameNames w') (hdistinct : w'.NamesDistinct) : w.NamesDistinct := by
  intro id id' name hid hid'
  refine hdistinct id id' name (isNamed_iff.mpr ?_) (isNamed_iff.mpr ?_)
  · rw [← h.name_eq id]
    exact isNamed_iff.mp hid
  · rw [← h.name_eq id']
    exact isNamed_iff.mp hid'

/-- **A sheet is found by its name**, since no other sheet has it. -/
theorem sheetId?_of_isNamed (hw : w.WellFormed) (hdistinct : w.NamesDistinct) {id : SheetId} {name : String}
    (h : w.IsNamed id name) : w.sheetId? name = some id := by
  have hlisted : id ∈ w.order := by
    obtain ⟨s, hs, -⟩ := h
    refine hw.listed id ?_
    rw [contains, hs]
    rfl
  obtain ⟨found, hfound⟩ := exists_sheetId? hlisted h
  rw [hfound, hdistinct found id name (sheetId?_eq_some.mp hfound).1 h]

/-- No sheet has a name by which none is found. -/
theorem not_isNamed_of_sheetId? (hw : w.WellFormed) {name : String} (h : w.sheetId? name = none) (id : SheetId) :
    ¬w.IsNamed id name := by
  rintro ⟨s, hs, hname⟩
  refine sheetId?_eq_none.mp h id (hw.listed id ?_) ⟨s, hs, hname⟩
  rw [contains, hs]
  rfl

theorem IsNamed.of_sameName {id : SheetId} {name name' : String} (h : w.IsNamed id name)
    (hsame : Text.sameName name name' = true) : w.IsNamed id name' := by
  obtain ⟨s, hs, hname⟩ := h
  exact ⟨s, hs, Text.sameName_trans hname hsame⟩

/-- A sheet is only renamed to a name that no other sheet has. -/
theorem NamesDistinct.modifySheet (hdistinct : w.NamesDistinct) {id : SheetId} {name : String}
    (hfree : ∀ id', w.IsNamed id' name → id' = id) :
    (w.modifySheet id fun s => { s with name }).NamesDistinct := by
  have hnamed : ∀ id' n, (w.modifySheet id fun s => { s with name }).IsNamed id' n →
      (id' = id ∧ Text.sameName name n = true) ∨ (id' ≠ id ∧ w.IsNamed id' n) := by
    rintro id' n ⟨s, hs, hn⟩
    rw [sheet?_modifySheet] at hs
    split at hs
    · next heq =>
      obtain ⟨_, -, rfl⟩ := Option.map_eq_some_iff.mp hs
      exact Or.inl ⟨heq, hn⟩
    · next hne => exact Or.inr ⟨hne, s, hs, hn⟩
  intro id₁ id₂ n h₁ h₂
  rcases hnamed id₁ n h₁ with ⟨rfl, hn₁⟩ | ⟨hne₁, hn₁⟩ <;> rcases hnamed id₂ n h₂ with ⟨rfl, hn₂⟩ | ⟨hne₂, hn₂⟩
  · rfl
  · exact absurd (hfree id₂ (hn₂.of_sameName (Text.sameName_symm hn₁))) hne₂
  · exact absurd (hfree id₁ (hn₁.of_sameName (Text.sameName_symm hn₂))) hne₁
  · exact hdistinct id₁ id₂ n hn₁ hn₂

/-- A sheet is only added under a name that no other sheet has. -/
theorem NamesDistinct.addSheet (hdistinct : w.NamesDistinct) (hw : w.WellFormed) {id : SheetId} {name : String}
    (h : w.addSheet name = .ok (w', id)) : w'.NamesDistinct := by
  obtain ⟨hfree, -, hsheet⟩ := addSheet_spec hw h
  have hnamed : ∀ id' n, w'.IsNamed id' n → w.IsNamed id' n ∨ (id' = id ∧ Text.sameName name n = true) := by
    rintro id' n ⟨s, hs, hn⟩
    rcases hsheet id' with heq | ⟨hid, -, hnew⟩
    · exact Or.inl ⟨s, by rw [← heq]; exact hs, hn⟩
    · rw [hnew] at hs
      cases hs
      exact Or.inr ⟨hid, hn⟩
  -- The new name is free, so no old sheet has it in any case.
  have hother : ∀ id' n, w.IsNamed id' n → Text.sameName name n = false := by
    intro id' n hold
    rw [← Bool.not_eq_true]
    exact fun hsame => not_isNamed_of_sheetId? hw hfree id' (hold.of_sameName (Text.sameName_symm hsame))
  intro id₁ id₂ n h₁ h₂
  rcases hnamed id₁ n h₁ with h₁ | ⟨rfl, h₁⟩ <;> rcases hnamed id₂ n h₂ with h₂ | ⟨rfl, h₂⟩
  · exact hdistinct id₁ id₂ n h₁ h₂
  · rw [hother id₁ n h₁] at h₂
    cases h₂
  · rw [hother id₂ n h₂] at h₁
    cases h₁
  · rfl

theorem NamesDistinct.removeSheet (hdistinct : w.NamesDistinct) {id : SheetId} {s : Sheet}
    (h : w.removeSheet id = .ok (w', s)) : w'.NamesDistinct := by
  obtain ⟨-, -, hsheet⟩ := removeSheet_spec h
  have hnamed : ∀ id' n, w'.IsNamed id' n → w.IsNamed id' n := by
    rintro id' n ⟨t, ht, hn⟩
    rw [hsheet] at ht
    split at ht
    · cases ht
    · exact ⟨t, ht, hn⟩
  exact fun id₁ id₂ n h₁ h₂ => hdistinct id₁ id₂ n (hnamed id₁ n h₁) (hnamed id₂ n h₂)

theorem NamesDistinct.renameSheet (hdistinct : w.NamesDistinct) (hw : w.WellFormed) {id : SheetId}
    {name old : String} (h : w.renameSheet id name = .ok (w', old)) : w'.NamesDistinct := by
  obtain ⟨hfree, -, rfl⟩ := renameSheet_spec h
  exact hdistinct.modifySheet fun id' hid' => hfree id' (sheetId?_of_isNamed hw hdistinct hid')

/-- A sheet stays until it is removed. -/
theorem contains_after (hw : w.WellFormed) {c : SheetCall} {id : SheetId} (hc : c ≠ .remove id)
    (h : w.contains id = true) : (w.after c).contains id = true := by
  cases c with
  | add name =>
    simp only [Workbook.after]
    split
    · next hadd =>
      rcases (addSheet_spec hw hadd).2.2 id with heq | ⟨-, -, hnew⟩
      · rwa [contains, heq]
      · rw [contains, hnew]
        rfl
    · exact h
  | remove id' =>
    simp only [Workbook.after]
    split
    · next hremove =>
      have hne : id ≠ id' := fun heq => hc (by rw [heq])
      rwa [contains, (removeSheet_spec hremove).2.2, if_neg hne]
    · exact h
  | rename id' name =>
    simp only [Workbook.after]
    split
    · next hrename =>
      obtain ⟨-, -, rfl⟩ := renameSheet_spec hrename
      rw [contains, sheet?_modifySheet]
      split
      · next heq => rwa [Option.isSome_map, ← heq]
      · exact h
    · exact h

theorem NamesDistinct.after (hdistinct : w.NamesDistinct) (hw : w.WellFormed) (c : SheetCall) :
    (w.after c).NamesDistinct :=
  after_keeps hdistinct (fun _ _ _ hadd => hdistinct.addSheet hw hadd)
    (fun _ _ _ hremove => hdistinct.removeSheet hremove)
    (fun _ _ _ _ hrename => hdistinct.renameSheet hw hrename) c

end Workbook

namespace Engine

/-! ### Calls that leave names alone -/

/-- **A call that does not concern the names of sheets leaves them alone.** -/
theorem sameNames_after (e : Engine) {c : Call} (hc : ¬c.Names) :
    (e.after c).workbook.SameNames e.workbook := by
  have h := Workbook.SameNames.refl e.workbook
  by_cases hregions : c.Regions
  · cases c with
    | mergeCells sheet rect =>
      refine perform_keeps (P := fun e' => e'.workbook.SameNames e.workbook) h fun t ht => ?_
      obtain ⟨s, hs, -, -, rfl⟩ := merged_eq_ok ht
      exact (sameFrame_replaceMerges e sheet rect _).sameNames.trans (Workbook.sameNames_modifySheet hs rfl)
    | unmergeCells sheet rect =>
      refine perform_keeps (P := fun e' => e'.workbook.SameNames e.workbook) h fun s hget => ?_
      cases hremove : s.removeMerge rect with
      | none => exact h
      | some t =>
        refine (sameFrame_replaceMerges e sheet rect t).sameNames.trans
          (Workbook.sameNames_modifySheet (sheet?_of_get hget) ?_)
        rw [removeMerge_eq_some hremove]
    | editLines sheet d =>
      refine perform_keeps (P := fun e' => e'.workbook.SameNames e.workbook) h fun s hs => ?_
      exact (sameFrame_shiftLines e sheet d s).sameNames.trans
        (Workbook.sameNames_modifySheet (editable_eq_ok hs).1 rfl)
    | _ => exact absurd hregions (by simp [Call.Regions])
  · exact (sameFrame_after e hc hregions).sameNames

/-! ### No two sheets have the same name -/

/-- **In a reachable engine no two sheets have the same name.** -/
theorem Reachable.namesDistinct {library : Library} {e : Engine} (h : Reachable library e) :
    e.workbook.NamesDistinct := by
  induction h with
  | start settings _ =>
    rintro id id' name ⟨s, hs, -⟩
    cases hs
  | @call e c h ih =>
    have hw := h.consistent.wellFormed
    cases c with
    | addSheet name => exact (sameFrame_addSheet e name).sameNames.namesDistinct (ih.after hw _)
    | removeSheet sheet => exact (sameFrame_removeSheet e sheet).sameNames.namesDistinct (ih.after hw _)
    | renameSheet sheet name => exact (sameFrame_renameSheet e sheet name).sameNames.namesDistinct (ih.after hw _)
    | _ => exact (sameNames_after e (by simp [Call.Names])).namesDistinct ih

end Engine

end Spreadsheet
