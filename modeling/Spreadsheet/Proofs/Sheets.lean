import Spreadsheet.Proofs.Changing
import Spreadsheet.Engine.Sheets

/-!
# Sheets: sheets that come and go

A new sheet gives a meaning to references that had none, so the unresolved formulas are linked again
(`edit_addSheet`); every other formula keeps its meaning, since names of sheets are not taken twice. With a
sheet go its cells and the names on it, and the readers that it leaves behind on other sheets are linked
again (`edit_removeSheet`).
-/

namespace Spreadsheet

open Grid DependencyGraph

namespace Engine

variable {E : ErrorValue.Likeness} {renamed : SheetId → Prop} {e : Engine}

/-! ### A new sheet -/

/-- Linking the unresolved formulas again, when there are none, does nothing. -/
theorem relinkUnresolved_eq (e : Engine) :
    e.relinkUnresolved = (e.relinkAll e.graph.unresolved.toList).markDirty e.graph.unresolved.toList := by
  unfold relinkUnresolved
  dsimp only
  split
  · next hempty =>
    rw [List.isEmpty_iff.mp hempty]
    exact (markDirty_nil e).symm
  · rfl

theorem mem_unresolved (h : e.Consistent) (p : Position) :
    p ∈ e.graph.unresolved.toList ↔ (e.linkAt p).unresolved = true := by
  rw [mem_unresolved_iff_link, (h.linked p).link_eq]

/-- A new sheet has no cells, and the others keep theirs. -/
theorem cell?_addSheet {w w' : Workbook} (hw : w.WellFormed) {id : SheetId} {name : String}
    (hadd : w.addSheet name = .ok (w', id)) : w'.cell? = w.cell? := by
  obtain ⟨-, -, hsheet⟩ := Workbook.addSheet_spec hw hadd
  funext p
  unfold Workbook.cell?
  rcases hsheet p.sheet with heq | ⟨-, hnone, hnew⟩
  · rw [heq]
  · rw [hnone, hnew]
    rfl

section AddSheet

variable {w' : Workbook} {id : SheetId} {name : String} (h : e.Consistent)
  (hadd : e.workbook.addSheet name = .ok (w', id))
include h hadd

/-- A new sheet takes the place of no other. -/
theorem sheet?_addSheet_of_contains {id' : SheetId} (hid' : e.workbook.contains id' = true) :
    w'.sheet? id' = e.workbook.sheet? id' := by
  obtain ⟨-, -, hsheet⟩ := Workbook.addSheet_spec h.wellFormed hadd
  rcases hsheet id' with heq | ⟨-, hnone, -⟩
  · exact heq
  · unfold Workbook.contains at hid'
    rw [hnone] at hid'
    cases hid'

theorem orderly_addSheet : ({ e with workbook := w' } : Engine).Orderly := by
  obtain ⟨-, -, hsheet⟩ := Workbook.addSheet_spec h.wellFormed hadd
  refine h.toOrderly.withWorkbook (h.wellFormed.addSheet hadd) (cell?_addSheet h.wellFormed hadd) ?_
  intro hroomy id' s hs
  rcases hsheet id' with heq | ⟨-, -, hnew⟩
  · exact h.apart hroomy id' s (heq ▸ hs)
  · rw [hs] at hnew
    cases hnew
    exact List.Pairwise.nil

/-- A reference that means something goes on to mean it when a sheet comes. -/
theorem resolve_addSheet {r : Reference} {home : SheetId} {a : Area} (ha : e.scope.resolve r home = .ok a) :
    ({ e with workbook := w' } : Engine).scope.resolve r home = .ok a := by
  have hsize : ({ e with workbook := w' } : Engine).scope.columns = e.scope.columns ∧
      ({ e with workbook := w' } : Engine).scope.rows = e.scope.rows := ⟨rfl, rfl⟩
  refine Scope.resolve_eq_ok_of_keeps hsize (fun n found _ hn => ?_) (fun n area _ hn => ?_) ha
  · exact Workbook.sheetId?_addSheet h.wellFormed hadd hn
  · unfold scope Workbook.scope at hn ⊢
    dsimp only at hn ⊢
    cases hget : e.names.get? n with
    | none =>
      rw [hget] at hn
      cases hn
    | some named =>
      rw [hget] at hn
      dsimp only at hn ⊢
      split at hn
      · next hcontains =>
        have hcontains' : w'.contains named.sheet = true := by
          unfold Workbook.contains
          rw [sheet?_addSheet_of_contains h hadd hcontains]
          exact hcontains
        rw [if_pos hcontains']
        exact hn
      · cases hn

/-- A new sheet obscures nothing. -/
theorem isObscured_addSheet (q : Position) : w'.isObscured q = e.workbook.isObscured q := by
  obtain ⟨-, -, hsheet⟩ := Workbook.addSheet_spec h.wellFormed hadd
  unfold Workbook.isObscured
  rcases hsheet q.sheet with heq | ⟨-, hnone, hnew⟩
  · rw [heq]
  · rw [hnone, hnew]
    rfl

/-- **A new sheet is an edit** whose seeds are the unresolved formulas. -/
theorem edit_addSheet :
    Edit some e { e with workbook := w' } e.graph.unresolved.toList e.graph.unresolved.toList := by
  have hcell := cell?_addSheet h.wellFormed hadd
  refine Edit.inPlace (fun p => p ∈ e.graph.unresolved.toList) h rfl rfl (orderly_addSheet h hadd)
    (fun p c hc hflag => Or.inl (h.flagged p c (congrFun hcell p ▸ hc) hflag))
    (fun p hp => Or.inr ⟨hp, ?_⟩) (fun p hp => Or.inl hp) (fun p hp => ?_)
    (fun _ _ q _ _ => isObscured_addSheet h hadd q)
  · rw [mem_unresolved h] at hp
    refine not_isUnread_of_tree ?_
    show (w'.tree? p).isSome = true
    rw [Workbook.tree?_eq_of_cell (congrFun hcell p)]
    refine isSome_tree_of_link (h.linked p) fun hlink => ?_
    rw [← (h.linked p).link_eq, hlink] at hp
    cases hp
  · rw [mem_unresolved h, Bool.not_eq_true] at hp
    refine untouched_of_agree (Workbook.core?_eq_of_cell (congrFun hcell p))
      (Workbook.content?_eq_of_cell (congrFun hcell p)) rfl (fun x hx entry hentry => ?_) Iff.rfl Iff.rfl
    obtain ⟨a, ha⟩ := (unresolved_linkAt hx).mp hp entry hentry
    exact Scope.AgreeOn.of_ok ha (resolve_addSheet h hadd ha)

end AddSheet

theorem changesTo_addSheet (h : e.Consistent) (name : String) :
    ChangesTo E renamed e (e.addSheet name).engine := by
  refine changesTo_perform h fun ⟨w', id⟩ hadd => ?_
  show ChangesTo E renamed e ({ e with workbook := w' } : Engine).relinkUnresolved.afterEdit
  rw [relinkUnresolved_eq]
  have hedit := edit_addSheet h hadd
  refine (hedit.revised (fun p hp => Or.inr hp) fun id' hid' _ => ?_).changesTo_afterEdit
  exact congrArg _ (sheet?_addSheet_of_contains h hadd hid')

/-! ### A sheet that goes -/

theorem link_foldl_clear (g : DependencyGraph) (ps : List Position) (q : Position) :
    (ps.foldl DependencyGraph.clear g).link q = if q ∈ ps then {} else g.link q := by
  induction ps generalizing g with
  | nil => rfl
  | cons p ps ih =>
    rw [List.foldl_cons, ih, link_clear]
    by_cases hp : q = p <;> by_cases hq : q ∈ ps <;> simp [hp, hq]

/-- The readers left behind are on other sheets, and read the sheet or look up a name on it. -/
theorem mem_readersLeftBehind {id : SheetId} {p : Position} :
    p ∈ e.readersLeftBehind id ↔ p.sheet ≠ id ∧ (p ∈ e.graph.readersOfSheet id ∨
      ∃ name ∈ e.names.touched id fun _ => none, p ∈ e.graph.readersOfName name) := by
  unfold readersLeftBehind
  dsimp only
  rw [List.mem_filter, Std.TreeSet.mem_toList, mem_foldl_insert, List.mem_flatMap]
  simp only [Std.TreeSet.mem_toList, decide_eq_true_eq]
  exact and_comm

/-- The names that are left when a sheet goes are those on other sheets. -/
theorem entries_removeSheet {names : NamedAreas} {id : SheetId} {key : String} {area : NamedArea} :
    (names.removeSheet id).entries[key]? = some area ↔ names.entries[key]? = some area ∧ area.sheet ≠ id := by
  unfold NamedAreas.removeSheet
  rw [NamedAreas.entries_adjust]
  cases names.entries[key]? with
  | none => simp
  | some area' =>
    rw [Option.bind_some]
    unfold NamedAreas.moved
    split
    · next hsheet =>
      simp only [Option.map_none, Option.some.injEq, reduceCtorEq, false_iff, not_and, not_not]
      rintro rfl
      exact hsheet
    · next hsheet =>
      simp only [Option.some.injEq, iff_self_and]
      rintro rfl
      exact hsheet

/-- The engine without a sheet, before anything is linked again. -/
def withoutSheet (e : Engine) (id : SheetId) (sheet : Sheet) (workbook : Workbook) : Engine :=
  let elsewhere := fun (p : Position) => p.sheet != id
  { e with
    workbook
    names := e.names.removeSheet id
    graph := (sheet.spots.map fun spot => spot.on id).foldl DependencyGraph.clear e.graph
    dirty := e.dirty.filter elsewhere
    unread := e.unread.filter elsewhere
    changes := e.changes.filter elsewhere }

section RemoveSheet

variable {id : SheetId} {sheet : Sheet} {w' : Workbook}

theorem cell?_removeSheet (hremove : e.workbook.removeSheet id = .ok (w', sheet)) (p : Position) :
    w'.cell? p = if p.sheet = id then none else e.workbook.cell? p := by
  obtain ⟨-, -, hsheet⟩ := Workbook.removeSheet_spec hremove
  unfold Workbook.cell?
  rw [hsheet]
  split <;> rfl

/-- Nothing is recorded of the cells of a sheet that goes, and the other records stay. -/
theorem link_withoutSheet (h : e.Consistent) (hremove : e.workbook.removeSheet id = .ok (w', sheet))
    (p : Position) :
    (e.withoutSheet id sheet w').graph.link p = if p.sheet = id then {} else e.graph.link p := by
  obtain ⟨hs, -, -⟩ := Workbook.removeSheet_spec hremove
  show ((sheet.spots.map fun spot => spot.on id).foldl DependencyGraph.clear e.graph).link p = _
  rw [link_foldl_clear]
  by_cases hp : p.sheet = id
  · rw [if_pos hp]
    split
    · rfl
    · next hnot =>
      apply link_of_no_cell (h.linked p)
      unfold Workbook.cell?
      rw [hp, hs]
      by_contra hstored
      apply hnot
      refine List.mem_map.mpr ⟨p.spot, Std.TreeMap.mem_keys.mpr ?_, ?_⟩
      · exact Std.TreeMap.isSome_getElem?_iff_mem.mp (Option.isSome_iff_ne_none.mpr hstored)
      · rw [← hp]
        rfl
  · rw [if_neg hp, if_neg]
    intro hmem
    obtain ⟨spot, -, rfl⟩ := List.mem_map.mp hmem
    exact hp rfl

/-- A reference that means something on another sheet goes on to mean it. -/
theorem resolve_withoutSheet (hremove : e.workbook.removeSheet id = .ok (w', sheet)) {r : Reference}
    {home : SheetId} {a : Area} (ha : e.scope.resolve r home = .ok a) (hother : a.sheet ≠ id) :
    (e.withoutSheet id sheet w').scope.resolve r home = .ok a := by
  obtain ⟨-, -, hsheet⟩ := Workbook.removeSheet_spec hremove
  obtain ⟨hqualified, hnamed⟩ := Scope.sheet_of_resolve ha
  have hsize : (e.withoutSheet id sheet w').scope.columns = e.scope.columns ∧
      (e.withoutSheet id sheet w').scope.rows = e.scope.rows := ⟨rfl, rfl⟩
  refine Scope.resolve_eq_ok_of_keeps hsize (fun n found hr hn => ?_) (fun n area hr hn => ?_) ha
  · refine (Workbook.sheetId?_removeSheet hremove).1 hn fun heq => hother ?_
    have hsame := hqualified n hr
    rw [hn] at hsame
    rw [← Option.some.inj hsame, heq]
  · obtain ⟨rect, hrect⟩ := hnamed n hr
    have hsheets : area.1 = a.sheet := by
      rw [hn] at hrect
      rw [Option.some.inj hrect]
    obtain ⟨named, hget, hcontains, rfl⟩ := area?_scope.mp hn
    have hother' : named.sheet ≠ id := fun heq => hother (hsheets ▸ heq)
    refine area?_scope.mpr ⟨named, entries_removeSheet.mpr ⟨hget, hother'⟩, ?_, rfl⟩
    show w'.contains named.sheet = true
    unfold Workbook.contains
    rw [hsheet, if_neg hother']
    exact hcontains

/-- A reference that means nothing means nothing without the sheet. -/
theorem exists_resolve_of_withoutSheet (hremove : e.workbook.removeSheet id = .ok (w', sheet))
    {r : Reference} {home : SheetId}
    (h : ∃ a, (e.withoutSheet id sheet w').scope.resolve r home = .ok a) :
    ∃ a, e.scope.resolve r home = .ok a := by
  obtain ⟨-, -, hsheet⟩ := Workbook.removeSheet_spec hremove
  have hsize : e.scope.columns = (e.withoutSheet id sheet w').scope.columns ∧
      e.scope.rows = (e.withoutSheet id sheet w').scope.rows := ⟨rfl, rfl⟩
  refine Scope.exists_resolve_of_keeps hsize (fun n found _ hn => ?_) (fun n area _ hn => ?_) h
  · exact (Workbook.sheetId?_removeSheet hremove).2 hn
  · obtain ⟨named, hget, hcontains, heq⟩ := area?_scope.mp hn
    obtain ⟨hold, hother⟩ := entries_removeSheet.mp hget
    refine ⟨area, area?_scope.mpr ⟨named, hold, ?_, heq⟩⟩
    have hcontains : w'.contains named.sheet = true := hcontains
    unfold Workbook.contains at hcontains ⊢
    rw [hsheet, if_neg hother] at hcontains
    exact hcontains

theorem orderly_withoutSheet (h : e.Consistent) (hremove : e.workbook.removeSheet id = .ok (w', sheet)) :
    (e.withoutSheet id sheet w').Orderly := by
  obtain ⟨-, -, hsheet⟩ := Workbook.removeSheet_spec hremove
  have hcell := cell?_removeSheet hremove
  have hfilter : ∀ (s : PositionSet) (p : Position),
      p ∈ s.filter (fun p => p.sheet != id) ↔ p ∈ s ∧ p.sheet ≠ id := by
    intro s p
    rw [mem_filter_iff, bne_iff_ne]
  have hold : ∀ p c, w'.cell? p = some c → e.workbook.cell? p = some c := by
    intro p c hc
    rw [hcell] at hc
    split at hc
    · cases hc
    · exact hc
  constructor
  case wellFormed => exact h.wellFormed.removeSheet hremove
  case names_lower => exact fun key area harea => h.names_lower key area (entries_removeSheet.mp harea).1
  case names_within => exact fun key area harea => h.names_within key area (entries_removeSheet.mp harea).1
  case symmetric =>
    exact foldl_keeps (P := fun g : DependencyGraph => g.IsSymmetric) (fun g p _ hg => hg.clear p) h.symmetric
  case cells => exact fun p c hc => h.cells p c (hold p c hc)
  case stored =>
    intro p hp
    obtain ⟨hp, hother⟩ := (hfilter _ _).mp hp
    show (w'.cell? p).isSome = true
    rw [hcell, if_neg hother]
    exact h.stored p hp
  case unread =>
    intro p hp
    obtain ⟨hp, hother⟩ := (hfilter _ _).mp hp
    exact (hfilter _ _).mpr ⟨h.unread p hp, hother⟩
  case marked => exact fun hroomy p c hc hp => h.marked hroomy p c (hold p c hc) ((hfilter _ _).mp hp).1
  case apart =>
    intro hroomy id' s hs
    have hs : w'.sheet? id' = some s := hs
    rw [hsheet] at hs
    split at hs
    · cases hs
    · exact h.apart hroomy id' s hs

/-- A formula on another sheet that is not left behind is untouched when a sheet goes. -/
theorem untouched_withoutSheet (h : e.Consistent) (hremove : e.workbook.removeSheet id = .ok (w', sheet))
    {p : Position} (hp : p.sheet ≠ id) (hnot : p ∉ e.graph.readersOfSheet id) :
    Untouched e (e.withoutSheet id sheet w') p := by
  have hcell : w'.cell? p = e.workbook.cell? p := (cell?_removeSheet hremove p).trans (if_neg hp)
  have htree : w'.tree? p = e.workbook.tree? p := Workbook.tree?_eq_of_cell hcell
  have hfilter : ∀ s : PositionSet, p ∈ s.filter (fun p => p.sheet != id) ↔ p ∈ s := by
    intro s
    rw [mem_filter_iff, bne_iff_ne]
    exact and_iff_left hp
  have hagree : ∀ x, e.workbook.tree? p = some x → (e.linkAt p).unresolved = false →
      ∀ entry ∈ x.references, e.scope.AgreeOn (e.withoutSheet id sheet w').scope p.sheet entry.2 := by
    intro x hx hresolved entry hentry
    obtain ⟨a, ha⟩ := (unresolved_linkAt hx).mp hresolved entry hentry
    refine Scope.AgreeOn.of_ok ha (resolve_withoutSheet hremove ha fun hsheet => hnot ?_)
    rw [mem_readersOfSheet h.symmetric]
    refine ⟨a, ?_, hsheet⟩
    have hlink := congrArg Link.areas (h.linked p).link_eq
    rw [show e.graph.precedentsOf p = (e.linkAt p).areas from hlink]
    exact mem_areas_linkAt hx hresolved hentry ha
  have hlinkAt : (e.withoutSheet id sheet w').linkAt p = e.linkAt p := by
    cases hu : (e.linkAt p).unresolved with
    | false => exact linkAt_congr rfl htree fun x hx => hagree x hx hu
    | true =>
      refine linkAt_of_unresolved htree hu ?_
      by_contra hresolved
      rw [Bool.not_eq_true] at hresolved
      cases hx : e.workbook.tree? p with
      | none =>
        unfold linkAt at hu
        rw [hx] at hu
        cases hu
      | some x =>
        have hx' : (e.withoutSheet id sheet w').workbook.tree? p = some x := htree.trans hx
        have hall := (unresolved_linkAt hx').mp hresolved
        have hfalse := (unresolved_linkAt hx).mpr fun entry hentry =>
          exists_resolve_of_withoutSheet hremove (hall entry hentry)
        rw [hu] at hfalse
        cases hfalse
  exact ⟨Workbook.core?_eq_of_cell hcell, Workbook.content?_eq_of_cell hcell,
    (link_withoutSheet h hremove p).trans (if_neg hp), hlinkAt, hagree, hfilter _, hfilter _⟩

/-- **Removing a sheet is an edit** whose seeds are the readers left behind. -/
theorem edit_removeSheet (h : e.Consistent) (hremove : e.workbook.removeSheet id = .ok (w', sheet)) :
    Edit some e (e.withoutSheet id sheet w') (e.readersLeftBehind id) (e.readersLeftBehind id) := by
  obtain ⟨-, -, hsheet⟩ := Workbook.removeSheet_spec hremove
  have hcell := cell?_removeSheet hremove
  refine Edit.inPlace (fun p => p.sheet = id ∨ p ∈ e.readersLeftBehind id) h rfl rfl
    (orderly_withoutSheet h hremove) ?_ ?_ ?_ ?_ ?_
  · intro p c hc hflag
    have hc : w'.cell? p = some c := hc
    rw [hcell] at hc
    split at hc
    · cases hc
    · next hp =>
      left
      refine (mem_filter_iff _ _ _).mpr ⟨h.flagged p c hc hflag, ?_⟩
      exact bne_iff_ne.mpr hp
  · rintro p (hp | hp)
    · left
      refine linkedAt_of_no_cell ?_ ((link_withoutSheet h hremove p).trans (if_pos hp))
      exact (hcell p).trans (if_pos hp)
    · right
      obtain ⟨hother, hreads⟩ := mem_readersLeftBehind.mp hp
      refine ⟨hp, not_isUnread_of_tree ?_⟩
      show (w'.tree? p).isSome = true
      unfold Workbook.tree?
      rw [hcell, if_neg hother]
      refine isSome_tree_of_link (h.linked p) fun hlink => ?_
      rcases hreads with hreads | ⟨name, -, hreads⟩
      · obtain ⟨a, ha, -⟩ := (mem_readersOfSheet h.symmetric).mp hreads
        have hareas := congrArg Link.areas hlink
        rw [show e.graph.precedentsOf p = [] from hareas] at ha
        exact List.not_mem_nil ha
      · rw [mem_readersOfName h.symmetric] at hreads
        have hnames := congrArg Link.names hlink
        rw [show e.graph.namesReadBy p = [] from hnames] at hreads
        exact List.not_mem_nil hreads
  · rintro p (hp | hp)
    · right
      right
      refine ⟨(hcell p).trans (if_pos hp), fun hd => ?_, fun reader hreader hread => ?_⟩
      · exact bne_iff_ne.mp ((mem_filter_iff _ _ _).mp hd).2 hp
      · rw [not_or] at hreader
        obtain ⟨a, ha, hcovers⟩ := (reads_iff_wouldRead (h.linked reader)).mpr hread
        refine hreader.2 (mem_readersLeftBehind.mpr ⟨hreader.1, Or.inl ?_⟩)
        exact (mem_readersOfSheet h.symmetric).mpr ⟨a, ha, ((Area.covers_iff a p).mp hcovers).1.trans hp⟩
    · exact Or.inl hp
  · intro p hp
    rw [not_or] at hp
    exact untouched_withoutSheet h hremove hp.1 fun hreads =>
      hp.2 (mem_readersLeftBehind.mpr ⟨hp.1, Or.inl hreads⟩)
  · intro _ p q hp hread
    rw [not_or] at hp
    have hq : q.sheet ≠ id := by
      intro hq
      obtain ⟨a, ha, hcovers⟩ := (reads_iff_wouldRead (h.linked p)).mpr hread
      refine hp.2 (mem_readersLeftBehind.mpr ⟨hp.1, Or.inl ?_⟩)
      exact (mem_readersOfSheet h.symmetric).mpr ⟨a, ha, ((Area.covers_iff a q).mp hcovers).1.trans hq⟩
    show w'.isObscured q = _
    unfold Workbook.isObscured
    rw [hsheet, if_neg hq]

end RemoveSheet

theorem changesTo_removeSheet (h : e.Consistent) (id : SheetId) :
    ChangesTo E renamed e (e.removeSheet id).engine := by
  refine changesTo_perform h fun ⟨w', sheet⟩ hremove => ?_
  have hedit := edit_removeSheet h hremove
  refine (hedit.revised (fun p hp => Or.inr hp) fun id' _ hid' => ?_).changesTo_afterEdit
  obtain ⟨-, -, hsheet⟩ := Workbook.removeSheet_spec hremove
  show (w'.sheet? id').map Sheet.name = _
  have hid' : (w'.sheet? id').isSome = true := hid'
  rw [hsheet] at hid' ⊢
  split at hid'
  · cases hid'
  · next hother => rw [if_neg hother]

end Engine

end Spreadsheet
