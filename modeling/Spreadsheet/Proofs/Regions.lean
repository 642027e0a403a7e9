import Spreadsheet.Proofs.LowerCase
import Spreadsheet.Proofs.Changing
import Spreadsheet.Engine.Areas

/-!
# Regions: names and merges that come and go

A name that is defined or removed concerns the formulas that look it up (`edit_names`), and a merged
region the formulas that read one of its cells (`edit_merges`). Of every other formula nothing changes:
its references mean what they meant, and what it reads is hidden if it was hidden.
-/

namespace Spreadsheet

open Grid DependencyGraph

namespace Engine

variable {E : ErrorValue.Likeness} {renamed : SheetId → Prop} {e : Engine}

/-! ### Names -/

/-- References mean the same where names that they look up have the same areas. -/
theorem agreeOn_of_names {names : NamedAreas} {r : Reference}
    (h : ∀ n, r = .name n → names.get? n = e.names.get? n) (sheet : SheetId) :
    e.scope.AgreeOn (e.workbook.scope names e.settings) sheet r := by
  intro a
  constructor
  · refine Scope.resolve_eq_ok_of_keeps ⟨rfl, rfl⟩ (fun _ _ _ hs => hs) fun n area hr harea => ?_
    rw [← harea]
    unfold scope Workbook.scope
    dsimp only
    rw [h n hr]
  · refine Scope.resolve_eq_ok_of_keeps ⟨rfl, rfl⟩ (fun _ _ _ hs => hs) fun n area hr harea => ?_
    rw [← harea]
    unfold scope Workbook.scope
    dsimp only
    rw [h n hr]

/-- The formulas that look up a name have a reference to it. -/
theorem lower_mem_names {p : Position} {x : Expr} (hx : e.workbook.tree? p = some x)
    {entry : String × Reference} (hentry : entry ∈ x.references) {n : String} (hn : entry.2 = .name n) :
    Text.lower n ∈ (e.linkAt p).names := by
  unfold linkAt
  rw [hx]
  show Text.lower n ∈ lookedUp x
  rw [mem_lookedUp]
  refine ⟨n, ?_, rfl⟩
  unfold namesOf
  rw [List.mem_filterMap]
  refine ⟨entry, hentry, ?_⟩
  rw [show entry = (entry.1, entry.2) from rfl, hn]

/-- **A change of one name is an edit** whose seeds are the formulas that look it up. -/
theorem edit_names (h : e.Consistent) {names : NamedAreas} (name : String)
    (hsame : ∀ n, Text.lower n ≠ Text.lower name → names.get? n = e.names.get? n)
    (hlower : ∀ key area, names.entries[key]? = some area → Text.lower key = key)
    (hwithin : ∀ (key : String) (area : NamedArea), names.entries[key]? = some area → e.fits area.rect = true) :
    Edit some e { e with names } (e.graph.readersOfName name).toList (e.graph.readersOfName name).toList := by
  have hseed : ∀ p, p ∈ (e.graph.readersOfName name).toList ↔ Text.lower name ∈ (e.linkAt p).names := by
    intro p
    rw [Std.TreeSet.mem_toList, mem_readersOfName h.symmetric, ← (h.linked p).link_eq]
    exact Iff.rfl
  have horderly : ({ e with names } : Engine).Orderly :=
    { h.toOrderly with names_lower := hlower, names_within := hwithin }
  refine Edit.inPlace (fun p => p ∈ (e.graph.readersOfName name).toList) h rfl rfl horderly
    (fun p c hc hflag => Or.inl (h.flagged p c hc hflag)) (fun p hp => ?_) (fun p hp => Or.inl hp)
    (fun p hp => ?_) (fun _ _ _ _ _ => rfl)
  · refine Or.inr ⟨hp, not_isUnread_of_tree (e := e) (isSome_tree_of_link (h.linked p) fun hlink => ?_)⟩
    rw [hseed, ← (h.linked p).link_eq, hlink] at hp
    exact List.not_mem_nil hp
  · have hagree : ∀ x, e.workbook.tree? p = some x → ∀ entry ∈ x.references,
        e.scope.AgreeOn ({ e with names } : Engine).scope p.sheet entry.2 := by
      intro x hx entry hentry
      refine agreeOn_of_names (fun n hn => hsame n fun heq => hp ?_) p.sheet
      rw [hseed, ← heq]
      exact lower_mem_names hx hentry hn
    exact untouched_of_agree rfl rfl rfl hagree Iff.rfl Iff.rfl

theorem changesTo_names (h : e.Consistent) {names : NamedAreas} (name : String)
    (hsame : ∀ n, Text.lower n ≠ Text.lower name → names.get? n = e.names.get? n)
    (hlower : ∀ key area, names.entries[key]? = some area → Text.lower key = key)
    (hwithin : ∀ (key : String) (area : NamedArea), names.entries[key]? = some area → e.fits area.rect = true) :
    ChangesTo E renamed e (({ e with names } : Engine).refreshName name) := by
  have hedit := edit_names h name hsame hlower hwithin
  exact (hedit.revised (fun _ hp => Or.inr hp) fun _ _ _ => rfl).changesTo_afterEdit

/-- A definition is about a plain name and a rectangle of the grid, on a sheet that is there. -/
theorem definition_eq_ok {name : String} {sheet : SheetId} {rect : Rect} {names : NamedAreas}
    (h : e.definition name sheet rect = .ok names) :
    e.workbook.contains sheet = true ∧ e.fits rect = true ∧ isPlainName name = true ∧
      names = ⟨e.names.entries.insert (Text.lower name) ⟨name, sheet, rect⟩⟩ := by
  unfold definition Workbook.get at h
  split at h
  · cases h
  · next s hget =>
    have hthere : e.workbook.contains sheet = true := by
      unfold Workbook.contains
      split at hget
      · next hs => rw [hs]; rfl
      · cases hget
    split at h
    · next hfits =>
      unfold NamedAreas.define at h
      split at h
      · next hplain =>
        cases h
        exact ⟨hthere, hfits, hplain, rfl⟩
      · cases h
    · cases h

theorem changesTo_defineName (h : e.Consistent) (name : String) (sheet : SheetId) (rect : Rect) :
    ChangesTo E renamed e (e.defineName name sheet rect).engine := by
  refine changesTo_perform h fun names hnames => ?_
  obtain ⟨-, hfits, -, rfl⟩ := definition_eq_ok hnames
  have hcases : ∀ (key : String) (area : NamedArea),
      (e.names.entries.insert (Text.lower name) ⟨name, sheet, rect⟩)[key]? = some area →
      (key = Text.lower name ∧ area.rect = rect) ∨ e.names.entries[key]? = some area := by
    intro key area harea
    rw [Std.TreeMap.getElem?_insert] at harea
    split at harea
    · next hkey =>
      cases harea
      exact Or.inl ⟨(Std.compare_eq_iff_eq.mp hkey).symm, rfl⟩
    · exact Or.inr harea
  refine changesTo_names h name (fun n hn => ?_) (fun key area harea => ?_) fun key area harea => ?_
  · unfold NamedAreas.get?
    rw [Std.TreeMap.getElem?_insert, if_neg]
    rw [Std.compare_eq_iff_eq]
    exact Ne.symm hn
  · rcases hcases key area harea with ⟨rfl, -⟩ | harea
    · exact Text.lower_lower name
    · exact h.names_lower key area harea
  · rcases hcases key area harea with ⟨-, heq⟩ | harea
    · rw [heq]
      exact hfits
    · exact h.names_within key area harea

theorem changesTo_removeName (h : e.Consistent) (name : String) : ChangesTo E renamed e (e.removeName name).2 := by
  unfold removeName
  split
  · exact ChangesTo.refl h
  · have hkept : ∀ (key : String) (area : NamedArea),
        (e.names.entries.erase (Text.lower name))[key]? = some area → e.names.entries[key]? = some area := by
      intro key area harea
      rw [Std.TreeMap.getElem?_erase] at harea
      split at harea
      · cases harea
      · exact harea
    refine changesTo_names h name (fun n hn => ?_)
      (fun key area harea => h.names_lower key area (hkept key area harea))
      fun key area harea => h.names_within key area (hkept key area harea)
    unfold NamedAreas.get? NamedAreas.erase
    rw [Std.TreeMap.getElem?_erase, if_neg]
    rw [Std.compare_eq_iff_eq]
    exact Ne.symm hn

/-! ### Merged regions -/

/-- **A change of the regions of a sheet is an edit** whose seeds are the formulas that read a cell of the
rectangle in which anything changes. -/
theorem edit_merges (h : e.Consistent) {id : SheetId} {s : Sheet} (hs : e.workbook.sheet? id = some s)
    {merges : List Rect} {rect : Rect} (hapart : e.settings.IsRoomy → MergesApart merges)
    (hhides : ∀ spot : Spot, rect.contains spot.col spot.row = false →
      Workbook.hides merges spot = Workbook.hides s.merges spot) :
    Edit some e { e with workbook := e.workbook.modifySheet id fun _ => { s with merges } } []
      (e.graph.readersOfRect id rect).toList := by
  have hsheet : ∀ id', (e.workbook.modifySheet id fun _ => { s with merges }).sheet? id' =
      if id' = id then some { s with merges } else e.workbook.sheet? id' := by
    intro id'
    rw [Workbook.sheet?_modifySheet, hs]
    rfl
  have hcell : (e.workbook.modifySheet id fun _ => { s with merges }).cell? = e.workbook.cell? := by
    funext p
    unfold Workbook.cell?
    rw [hsheet]
    split
    · next hp =>
      rw [hp, hs]
      rfl
    · rfl
  have hscope : ({ e with workbook := e.workbook.modifySheet id fun _ => { s with merges } } : Engine).scope =
      e.scope := by
    refine Workbook.scope_eq_of_names (Workbook.order_modifySheet _ _ _) (fun id' => ?_) _ _
    rw [hsheet]
    split
    · next hid =>
      rw [hid, hs]
      rfl
    · rfl
  have horderly : ({ e with workbook := e.workbook.modifySheet id fun _ => { s with merges } } : Engine).Orderly := by
    refine h.toOrderly.withWorkbook (h.wellFormed.modifySheet _ _) hcell fun hroomy id' s' hs' => ?_
    rw [hsheet] at hs'
    split at hs'
    · cases hs'
      exact hapart hroomy
    · exact h.apart hroomy id' s' hs'
  have huntouched : ∀ p,
      Untouched e { e with workbook := e.workbook.modifySheet id fun _ => { s with merges } } p := fun p =>
    untouched_of_scope hscope (Workbook.core?_eq_of_cell (congrFun hcell p))
      (Workbook.content?_eq_of_cell (congrFun hcell p)) rfl Iff.rfl Iff.rfl
  refine Edit.inPlace (fun p => p ∈ (e.graph.readersOfRect id rect).toList) h rfl rfl horderly ?_
    (fun p _ => Or.inl ((huntouched p).linkedAt (h.linked p))) (fun p hp => Or.inl hp)
    (fun p _ => huntouched p) (fun _ p q hp hread => ?_)
  · rw [hcell]
    exact fun p c hc hflag => Or.inl (h.flagged p c hc hflag)
  · show (e.workbook.modifySheet id fun _ => { s with merges }).isObscured q = _
    unfold Workbook.isObscured
    rw [hsheet]
    split
    · next hq =>
      rw [hq, hs]
      refine hhides q.spot ?_
      by_contra hcovers
      have hcovers : rect.contains q.col q.row = true := Bool.not_eq_false _ ▸ hcovers
      apply hp
      rw [Std.TreeSet.mem_toList, mem_readersOfRect h.symmetric]
      obtain ⟨a, ha, hcover⟩ := (reads_iff_wouldRead (h.linked p)).mpr hread
      obtain ⟨hsame, hin⟩ := (Area.covers_iff a q).mp hcover
      exact ⟨a, ha, hsame.trans hq, Rect.intersects_of_contains hin hcovers⟩
    · rfl

theorem changesTo_replaceMerges (h : e.Consistent) {id : SheetId} {s : Sheet}
    (hs : e.workbook.sheet? id = some s) {merges : List Rect} {rect : Rect}
    (hapart : e.settings.IsRoomy → MergesApart merges)
    (hhides : ∀ spot : Spot, rect.contains spot.col spot.row = false →
      Workbook.hides merges spot = Workbook.hides s.merges spot) :
    ChangesTo E renamed e (e.replaceMerges id rect { s with merges }) := by
  have hedit := edit_merges h hs hapart hhides
  refine (hedit.revised (fun _ hp => absurd hp List.not_mem_nil) fun id' _ _ => ?_).changesTo_afterEdit
  show ((e.workbook.modifySheet id fun _ => { s with merges }).sheet? id').map Sheet.name = _
  rw [Workbook.sheet?_modifySheet]
  split
  · next hid =>
    rw [hid, hs]
    rfl
  · rfl

theorem sheet?_of_get {w : Workbook} {id : SheetId} {s : Sheet} (h : w.get id = .ok s) :
    w.sheet? id = some s := by
  unfold Workbook.get at h
  split at h
  · next s' hs =>
    cases h
    exact hs
  · cases h

/-- A sheet that can have another merged region gets it behind its own, of which none overlaps it. The region
has several cells. -/
theorem merged_eq_ok {id : SheetId} {rect : Rect} {sheet : Sheet} (h : e.merged id rect = .ok sheet) :
    ∃ s, e.workbook.sheet? id = some s ∧ rect.isSingle = false ∧ s.merges.any (fun m => m.intersects rect) = false ∧
      sheet = { s with merges := s.merges ++ [rect] } := by
  unfold merged at h
  split at h
  · split at h
    · cases h
    · next s hget =>
      split at h
      · next s' hadd =>
        cases h
        unfold Sheet.addMerge at hadd
        split at hadd
        · cases hadd
        · next hok =>
          cases hadd
          rw [Bool.not_eq_true, Bool.or_eq_false_iff] at hok
          exact ⟨s, sheet?_of_get hget, hok.1, hok.2, rfl⟩
      · cases h
  · cases h

theorem fits_of_merged {id : SheetId} {rect : Rect} {sheet : Sheet} (h : e.merged id rect = .ok sheet) :
    e.fits rect = true := by
  unfold merged at h
  split at h
  · next hfits => exact hfits
  · cases h

/-- A sheet loses a merged region and keeps all else. -/
theorem removeMerge_eq_some {s sheet : Sheet} {rect : Rect} (h : s.removeMerge rect = some sheet) :
    sheet = { s with merges := s.merges.filter (· ≠ rect) } := by
  unfold Sheet.removeMerge at h
  split at h
  · cases h
    rfl
  · cases h

/-- A new region that overlaps no other hides cells of its own only. -/
theorem changesTo_mergeCells (h : e.Consistent) (id : SheetId) (rect : Rect) :
    ChangesTo E renamed e (e.mergeCells id rect).engine := by
  refine changesTo_perform h fun sheet hsheet => ?_
  obtain ⟨s, hs, -, hfree, rfl⟩ := merged_eq_ok hsheet
  refine changesTo_replaceMerges h hs (fun hroomy => ?_) fun spot hspot => ?_
  · refine List.pairwise_append.mpr ⟨h.apart hroomy id s hs, List.pairwise_singleton _ _, ?_⟩
    intro m hm m' hm'
    rw [List.mem_singleton.mp hm']
    exact Bool.eq_false_iff.mpr fun hi => by
      rw [List.any_eq_false] at hfree
      exact hfree m hm hi
  · unfold Workbook.hides
    rw [List.find?_append, List.find?_cons_of_neg (by simp [hspot]), List.find?_nil, Option.or_none]

/-- The cells of a region that goes are no longer hidden, and no others. -/
theorem changesTo_unmergeCells (h : e.Consistent) (id : SheetId) (rect : Rect) :
    ChangesTo E renamed e (e.unmergeCells id rect).engine := by
  refine changesTo_perform h fun s hget => ?_
  have hs := sheet?_of_get hget
  cases hremove : s.removeMerge rect with
  | none => exact ChangesTo.refl h
  | some sheet =>
    rw [removeMerge_eq_some hremove]
    refine changesTo_replaceMerges h hs (fun hroomy => ?_) fun spot hspot => ?_
    · exact (h.apart hroomy id s hs).filter _
    · unfold Workbook.hides
      rw [List.find?_filter]
      congr 2
      funext m
      by_cases hm : m = rect
      · simp [hm, hspot]
      · simp [hm]

end Engine

end Spreadsheet
