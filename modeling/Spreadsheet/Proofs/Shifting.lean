import Spreadsheet.Proofs.LineImages
import Spreadsheet.Proofs.Regions
import Spreadsheet.Proofs.Rewording
import Spreadsheet.Engine.History

/-!
# Shifting: lines that are inserted and deleted

When lines are edited, cells, regions, names and sets move together (`Engine.Shifted`), and the graph is
built anew. What is not a seed afterwards

* comes from a cell with the same content, whose references mean what they meant (`Shifted.alike`);
* reads nothing that moved, so what it reads is where it was (`Shifted.unmoved`).

These two make the edit (`Shifted.edit`). The formulas whose texts were replaced are seeds, whichever they
are.
-/

namespace Spreadsheet

open Grid DependencyGraph

/-! ### Sheets whose cells move -/

namespace Sheet

/-- A cell of a sheet whose cells have moved comes from somewhere. -/
theorem source_remap (s : Sheet) (target : Spot → Option Spot) {spot : Spot} {c : Cell}
    (h : (s.remap target).get? spot = some c) : ∃ old, target old = some spot ∧ s.get? old = some c := by
  suffices hkept : ∀ spot c, (s.remap target).cells[spot]? = some c →
      ∃ old, target old = some spot ∧ (old, c) ∈ s.toList by
    obtain ⟨old, hold, hmem⟩ := hkept spot c h
    exact ⟨old, hold, Std.TreeMap.mem_toList_iff_getElem?_eq_some.mp hmem⟩
  refine foldl_keeps (P := fun m : Std.TreeMap Spot Cell => ∀ spot c, m[spot]? = some c →
    ∃ old, target old = some spot ∧ (old, c) ∈ s.toList) (fun m entry hentry hm spot c hc => ?_)
    fun spot c hc => ?_
  obtain ⟨old, cell⟩ := entry
  dsimp only at hc
  split at hc
  · next new hnew =>
    rw [Std.TreeMap.getElem?_insert] at hc
    split at hc
    · next heq =>
      cases hc
      exact ⟨old, (Std.compare_eq_iff_eq.mp heq) ▸ hnew, hentry⟩
    · exact hm spot c hc
  · exact hm spot c hc
  · rw [Std.TreeMap.getElem?_emptyc] at hc
    cases hc

/-- A cell that moves somewhere leaves a cell there, though perhaps not itself. -/
theorem isSome_get?_remap (s : Sheet) (target : Spot → Option Spot) {old spot : Spot}
    (htarget : target old = some spot) (hold : (s.get? old).isSome = true) :
    ((s.remap target).get? spot).isSome = true := by
  obtain ⟨c, hc⟩ := Option.isSome_iff_exists.mp hold
  have hmem : spot ∈ (s.remap target).cells := by
    refine (holds_foldl_iff (fun m : Std.TreeMap Spot Cell => spot ∈ m)
      (fun entry : Spot × Cell => target entry.1 = some spot) _ (fun m entry => ?_) _ _).mpr
      (Or.inr ⟨(old, c), Std.TreeMap.mem_toList_iff_getElem?_eq_some.mpr hc, htarget⟩)
    obtain ⟨a, cell⟩ := entry
    dsimp only
    cases target a with
    | none => simp
    | some new =>
      dsimp only
      rw [Std.TreeMap.mem_insert, Std.compare_eq_iff_eq, Option.some.injEq, or_comm]
  exact Std.TreeMap.isSome_getElem?_iff_mem.mpr hmem

end Sheet

namespace Engine

/-- Where the positions of a workbook go when lines of a sheet are edited. -/
def image (e : Engine) (id : SheetId) (d : LineEdit) : Position → Option Position :=
  d.positionImage? (e.limit d.axis) id

/-- A sheet with its cells and regions moved. -/
def movedSheet (e : Engine) (d : LineEdit) (sheet : Sheet) : Sheet :=
  (sheet.remap (d.spotImage? (e.limit d.axis))).remapMerges (d.rectImage? (e.limit d.axis))

/-- The workbook with one sheet moved. -/
def movedWorkbook (e : Engine) (id : SheetId) (d : LineEdit) (sheet : Sheet) : Workbook :=
  e.workbook.modifySheet id fun _ => e.movedSheet d sheet

/-- The names with the areas of one sheet moved. -/
def movedNames (e : Engine) (id : SheetId) (d : LineEdit) : NamedAreas :=
  e.names.adjust id (d.rectImage? (e.limit d.axis))

/-- The formulas that read a cell which moves, or look up a name whose area changes. -/
def movedReaders (e : Engine) (id : SheetId) (d : LineEdit) : List Position :=
  (e.graph.readersOfRect id (d.affected e.settings.columns e.settings.rows)).toList ++
    (e.names.touched id (d.rectImage? (e.limit d.axis))).flatMap fun name =>
      (e.graph.readersOfName name).toList

section Moved

variable {e : Engine} {id : SheetId} {d : LineEdit} {sheet : Sheet}

theorem sheet?_movedWorkbook (hs : e.workbook.sheet? id = some sheet) (id' : SheetId) :
    (e.movedWorkbook id d sheet).sheet? id' =
      if id' = id then some (e.movedSheet d sheet) else e.workbook.sheet? id' := by
  unfold movedWorkbook
  rw [Workbook.sheet?_modifySheet, hs]
  rfl

theorem mem_imageOf (image : Position → Option Position) (s : PositionSet) (q : Position) :
    q ∈ imageOf image s ↔ ∃ p ∈ s, image p = some q := by
  unfold imageOf
  rw [mem_ofList_iff, List.mem_filterMap]
  simp only [Std.TreeSet.mem_toList]

/-- A cell of the moved workbook comes from somewhere. -/
theorem source_movedWorkbook (hs : e.workbook.sheet? id = some sheet) {q : Position} {c : Cell}
    (h : (e.movedWorkbook id d sheet).cell? q = some c) :
    ∃ p, e.image id d p = some q ∧ e.workbook.cell? p = some c := by
  obtain ⟨t, ht, hget⟩ := Workbook.cell?_eq_some.mp h
  rw [sheet?_movedWorkbook hs] at ht
  unfold image LineEdit.positionImage?
  split at ht
  · next hq =>
    cases ht
    obtain ⟨old, hold, hc⟩ := Sheet.source_remap sheet (d.spotImage? (e.limit d.axis)) hget
    refine ⟨old.on id, ?_, Workbook.cell?_eq_some.mpr ⟨sheet, hs, hc⟩⟩
    show (if id = id then (d.spotImage? (e.limit d.axis) old).map (·.on id) else _) = some q
    rw [if_pos rfl, hold, ← hq]
    rfl
  · next hq =>
    refine ⟨q, if_neg hq, Workbook.cell?_eq_some.mpr ⟨t, ht, hget⟩⟩

/-- A cell that moves somewhere leaves a cell there. -/
theorem isSome_movedWorkbook (hs : e.workbook.sheet? id = some sheet) {p q : Position}
    (h : e.image id d p = some q) (hp : (e.workbook.cell? p).isSome = true) :
    ((e.movedWorkbook id d sheet).cell? q).isSome = true := by
  unfold image LineEdit.positionImage? at h
  unfold Workbook.cell? at hp ⊢
  rw [sheet?_movedWorkbook hs]
  split at h
  · next hsheet =>
    obtain ⟨spot, hspot, rfl⟩ := Option.map_eq_some_iff.mp h
    rw [hsheet, hs] at hp
    rw [if_pos (show (spot.on id).sheet = id from rfl)]
    exact Sheet.isSome_get?_remap sheet (d.spotImage? (e.limit d.axis)) hspot hp
  · next hsheet =>
    cases h
    rw [if_neg hsheet]
    exact hp

end Moved

/-! ### The engine after the move -/

/-- One engine is the other after lines of a sheet were edited and the texts of the formulas `ps` were
replaced, before anything is linked. -/
structure Shifted (id : SheetId) (d : LineEdit) (sheet : Sheet) (ps : List Position) (e e₁ : Engine) :
    Prop where
  settings_eq : e₁.settings = e.settings
  library_eq : e₁.library = e.library
  names_eq : e₁.names = e.movedNames id d
  graph_eq : e₁.graph = {}
  frame : e₁.workbook.SameFrame (e.movedWorkbook id d sheet)
  wellFormed : e₁.workbook.WellFormed
  source : ∀ q c₁, e₁.workbook.cell? q = some c₁ → ∃ p c, e.image id d p = some q ∧
    e.workbook.cell? p = some c ∧ c₁.flags.dirty = c.flags.dirty ∧
    (c.IsOrderly e.readFormula → c₁.IsOrderly e.readFormula) ∧ (q ∉ ps → c₁ = c)
  isSome : ∀ p q, e.image id d p = some q → (e.workbook.cell? p).isSome = true →
    (e₁.workbook.cell? q).isSome = true
  read : ∀ q ∈ ps, ¬e₁.IsUnread q
  mem_dirty : ∀ q, q ∈ e₁.dirty ↔ ∃ p ∈ e.dirty, e.image id d p = some q
  mem_unread : ∀ q, q ∈ e₁.unread ↔ ∃ p, (p ∈ e.unread ∧ p ∉ ps) ∧ e.image id d p = some q

namespace Shifted

variable {id : SheetId} {d : LineEdit} {sheet : Sheet} {ps : List Position} {e e₁ : Engine}

/-- References mean what they mean among the moved names. -/
theorem scope_eq (h : Shifted id d sheet ps e e₁) (hs : e.workbook.sheet? id = some sheet) :
    e₁.scope = e.workbook.scope (e.movedNames id d) e.settings := by
  unfold scope
  rw [h.names_eq, h.settings_eq, h.frame.scope_eq]
  have horder : (e.movedWorkbook id d sheet).order = e.workbook.order := Workbook.order_modifySheet _ _ _
  refine Workbook.scope_eq_of_names horder (fun id' => ?_) _ _
  rw [sheet?_movedWorkbook hs]
  split
  · next hid =>
    rw [hid, hs]
    rfl
  · rfl

/-- References mean the same if the areas of the names that they look up stay. -/
theorem agreeOn (h : Shifted id d sheet ps e e₁) (hs : e.workbook.sheet? id = some sheet) {r : Reference}
    (hr : ∀ n, r = .name n → (e.movedNames id d).get? n = e.names.get? n) (home : SheetId) :
    e.scope.AgreeOn e₁.scope home r := by
  rw [h.scope_eq hs]
  exact agreeOn_of_names hr home

/-- A formula that does not look up a name whose area changes looks up names whose areas stay. -/
theorem get?_movedNames (he : e.Consistent) {p : Position} (hp : p ∉ e.movedReaders id d) {x : Expr}
    (hx : e.workbook.tree? p = some x) {entry : String × Reference} (hentry : entry ∈ x.references)
    {n : String} (hn : entry.2 = .name n) : (e.movedNames id d).get? n = e.names.get? n := by
  unfold movedNames NamedAreas.get?
  rw [NamedAreas.entries_adjust]
  cases harea : e.names.entries[Text.lower n]? with
  | none => rfl
  | some area =>
    rw [Option.bind_some]
    by_contra hchanged
    apply hp
    unfold movedReaders
    refine List.mem_append_right _ (List.mem_flatMap.mpr ⟨Text.lower n, ?_, ?_⟩)
    · unfold NamedAreas.touched
      refine List.mem_filterMap.mpr ⟨(Text.lower n, area), ?_, if_neg hchanged⟩
      exact Std.TreeMap.mem_toList_iff_getElem?_eq_some.mpr harea
    · rw [Std.TreeSet.mem_toList, mem_readersOfName he.symmetric, he.names_lower _ area harea]
      have hnames := lower_mem_names hx hentry hn
      rw [← (he.linked p).link_eq] at hnames
      exact hnames

section Seeds

variable {seeds : List Position}

/-- **A cell that is not a seed afterwards is what it was where it came from.** -/
theorem alike (h : Shifted id d sheet ps e e₁) (he : e.Consistent)
    (hs : e.workbook.sheet? id = some sheet)
    (hseeds : ∀ q, (∃ p ∈ e.movedReaders id d, e.image id d p = some q) → q ∈ seeds)
    {p q : Position} (himage : e.image id d p = some q)
    (hcell : e₁.workbook.cell? q = e.workbook.cell? p) (hd : q ∉ e₁.dirty) (hq : q ∉ seeds) :
    Alike e p e₁ q := by
  have hsheet : q.sheet = p.sheet := (LineEdit.positionImage?_eq_some.mp himage).1
  have hp : p ∉ e.movedReaders id d := fun hp => hq (hseeds q ⟨p, hp, himage⟩)
  have hagree : ∀ x, e.workbook.tree? p = some x → ∀ entry ∈ x.references,
      e.scope.AgreeOn e₁.scope p.sheet entry.2 := by
    intro x hx entry hentry
    exact h.agreeOn hs (fun n hn => get?_movedNames he hp hx hentry hn) p.sheet
  exact ⟨hsheet, Workbook.core?_eq_of_cell hcell, linkAt_congr hsheet (Workbook.tree?_eq_of_cell hcell) hagree,
    fun x hx _ => hagree x hx, fun hdirty => hd ((h.mem_dirty q).mpr ⟨p, hdirty, himage⟩)⟩

end Seeds

end Shifted

/-- What an edit of lines has to be: it affects some line of a grid whose lines can be counted. -/
structure IsEditable (e : Engine) (d : LineEdit) : Prop where
  pos : 1 ≤ d.line
  line_le : d.line ≤ e.limit d.axis
  countable : e.settings.IsCountable

namespace IsEditable

variable {e : Engine} {d : LineEdit}

theorem limit_le (h : e.IsEditable d) : e.limit d.axis ≤ lastLine := by
  unfold limit
  cases d.axis
  · exact h.countable.2
  · exact h.countable.1

theorem line_le_lastLine (h : e.IsEditable d) : d.line ≤ lastLine := h.line_le.trans h.limit_le

theorem limit_lt (hroomy : e.settings.IsRoomy) (d : LineEdit) : e.limit d.axis < lastLine := by
  unfold limit
  cases d.axis
  · exact hroomy.2
  · exact hroomy.1

theorem limit_eq_along (e : Engine) (d : LineEdit) :
    e.limit d.axis = d.along e.settings.columns e.settings.rows := by
  unfold limit LineEdit.along
  cases d.axis <;> rfl

end IsEditable

/-- What a reference means lies on the grid. -/
theorem isWithin_of_resolve {e : Engine} (h : e.Orderly) {r : Reference} {home : SheetId} {a : Area}
    (ha : e.scope.resolve r home = .ok a) :
    a.rect.isWithin e.settings.columns e.settings.rows = true := by
  cases r with
  | cell qualifier address =>
    obtain ⟨id, -, hin, rfl⟩ := Scope.resolve_cell.mp ha
    exact Bool.and_eq_true_iff.mpr ⟨hin, hin⟩
  | range qualifier first last =>
    obtain ⟨id, -, hin, rfl⟩ := Scope.resolve_range.mp ha
    exact hin
  | name n =>
    obtain ⟨_, harea, rfl⟩ := Scope.resolve_name.mp ha
    obtain ⟨area, hget, -, rfl⟩ := area?_scope.mp harea
    exact h.names_within (Text.lower n) area hget

/-- What a formula reads lies on the grid. -/
theorem isWithin_of_mem_areas {e : Engine} (h : e.Orderly) {p : Position} {a : Area}
    (ha : a ∈ (e.linkAt p).areas) : a.rect.isWithin e.settings.columns e.settings.rows = true := by
  obtain ⟨x, -, entry, -, hresolve⟩ := exists_reference_of_mem_areas ha
  exact isWithin_of_resolve h hresolve

namespace Shifted

variable {id : SheetId} {d : LineEdit} {sheet : Sheet} {ps seeds : List Position} {e e₁ : Engine}

/-- **What a formula reads that is not a seed does not move**: it is on another sheet or before the edited
line. -/
theorem before_of_wouldRead (hd : e.IsEditable d) (he : e.Consistent) {p : Position}
    (hp : p ∉ e.movedReaders id d) {q : Position} (hread : e.WouldRead p q) :
    q.sheet = id → 1 ≤ d.lineOf q.address ∧ d.lineOf q.address < d.line := by
  intro hq
  obtain ⟨a, ha, hcovers⟩ := hread
  obtain ⟨hsheet, hcontains⟩ := (Area.covers_iff a q).mp hcovers
  have hwithin := isWithin_of_mem_areas he.toOrderly ha
  have hline := hd.line_le
  rw [IsEditable.limit_eq_along] at hline
  have hbefore : d.lineOf a.rect.bottomRight < d.line := by
    refine LineEdit.before_of_not_intersects hwithin hline (Bool.eq_false_iff.mpr fun hi => hp ?_)
    refine List.mem_append_left _ ?_
    rw [Std.TreeSet.mem_toList, mem_readersOfRect he.symmetric]
    refine ⟨a, ?_, hsheet.trans hq, hi⟩
    rw [← (he.linked p).link_eq] at ha
    exact ha
  obtain ⟨⟨hfirst, -⟩, -⟩ := (LineEdit.isWithin_iff d _ _ _).mp hwithin
  obtain ⟨⟨hlow, hhigh⟩, -⟩ := (LineEdit.contains_iff d a.rect q.spot).mp hcontains
  have hspot : d.lineOf q.spot.address = d.lineOf q.address := rfl
  omega

/-- Where nothing moves, the cell is what it was. -/
theorem cell?_of_before (h : Shifted id d sheet ps e e₁) (hd : e.IsEditable d) {q : Position}
    (hq : q.sheet = id → d.lineOf q.address < d.line) (hps : q ∉ ps) :
    e₁.workbook.cell? q = e.workbook.cell? q := by
  have himage : e.image id d q = some q := LineEdit.positionImage?_of_before hd.line_le hq
  cases hc₁ : e₁.workbook.cell? q with
  | some c₁ =>
    obtain ⟨p, c, hp, hc, -, -, heq⟩ := h.source q c₁ hc₁
    obtain rfl := LineEdit.eq_of_positionImage? hd.line_le_lastLine hp hq
    rw [hc, heq hps]
  | none =>
    cases hc : e.workbook.cell? q with
    | none => rfl
    | some c =>
      have hstored := h.isSome q q himage (by rw [hc]; rfl)
      rw [hc₁] at hstored
      cases hstored

/-- Everything is in order after lines were edited. -/
theorem orderly (h : Shifted id d sheet ps e e₁) (hd : e.IsEditable d) (he : e.Consistent)
    (hs : e.workbook.sheet? id = some sheet) : e₁.Orderly := by
  constructor
  case wellFormed => exact h.wellFormed
  case names_lower =>
    intro key area harea
    rw [h.names_eq] at harea
    unfold movedNames at harea
    rw [NamedAreas.entries_adjust] at harea
    obtain ⟨old, hold, -⟩ := Option.bind_eq_some_iff.mp harea
    exact he.names_lower key old hold
  case names_within =>
    intro key area harea
    rw [h.names_eq] at harea
    unfold movedNames at harea
    rw [NamedAreas.entries_adjust] at harea
    obtain ⟨old, hold, hmoved⟩ := Option.bind_eq_some_iff.mp harea
    have hfits := he.names_within key old hold
    unfold fits at hfits ⊢
    rw [h.settings_eq]
    unfold NamedAreas.moved at hmoved
    split at hmoved
    · obtain ⟨rect, hrect, rfl⟩ := Option.map_eq_some_iff.mp hmoved
      rw [IsEditable.limit_eq_along] at hrect
      exact LineEdit.isWithin_rectImage? hd.pos hd.line_le_lastLine hfits hrect
    · cases hmoved
      exact hfits
  case symmetric =>
    rw [h.graph_eq]
    exact isSymmetric_empty
  case cells =>
    intro q c₁ hc₁
    obtain ⟨p, c, -, hc, -, horderly, -⟩ := h.source q c₁ hc₁
    rw [readFormula_congr h.settings_eq]
    exact horderly (he.cells p c hc)
  case stored =>
    intro q hq
    obtain ⟨p, hp, himage⟩ := (h.mem_dirty q).mp hq
    exact h.isSome p q himage (he.stored p hp)
  case unread =>
    intro q hq
    obtain ⟨p, ⟨hp, -⟩, himage⟩ := (h.mem_unread q).mp hq
    exact (h.mem_dirty q).mpr ⟨p, he.unread p hp, himage⟩
  case marked =>
    intro hroomy q c₁ hc₁ hq
    rw [h.settings_eq] at hroomy
    obtain ⟨p, c, himage, hc, hflag, -, -⟩ := h.source q c₁ hc₁
    obtain ⟨p', hp', himage'⟩ := (h.mem_dirty q).mp hq
    -- On a grid with room the dirty position is that of the cell.
    obtain rfl := LineEdit.positionImage?_injective (IsEditable.limit_lt hroomy d) himage himage'
    rw [hflag]
    exact he.marked hroomy p c hc hp'
  case apart =>
    intro hroomy id' s₁ hs₁
    rw [h.settings_eq] at hroomy
    obtain ⟨s, hs', heq⟩ := merges_eq_of_frame h.frame hs₁
    rw [heq]
    rw [sheet?_movedWorkbook hs] at hs'
    split at hs'
    · cases hs'
      exact LineEdit.mergesApart_images hd.line_le_lastLine (IsEditable.limit_lt hroomy d)
        (he.apart hroomy id sheet hs)
    · exact he.apart hroomy id' s hs'

/-- Nothing is linked after lines were edited; what has to be is to be linked again. -/
theorem linkedAt (h : Shifted id d sheet ps e e₁) (he : e.Consistent) (p : Position) :
    e₁.LinkedAt p ∨ (p ∈ e₁.workbook.formulaTexts.map Prod.fst ∧ ¬e₁.IsUnread p) := by
  have hlink : e₁.graph.link p = {} := by
    rw [h.graph_eq]
    exact link_empty p
  cases hc₁ : e₁.workbook.cell? p with
  | none => exact Or.inl (linkedAt_of_no_cell hc₁ hlink)
  | some c₁ =>
    obtain ⟨content, value, flags⟩ := c₁
    cases content with
    | constant v =>
      refine Or.inl (linkedAt_of_blank ?_ ?_ hlink)
      · unfold Workbook.tree?
        rw [hc₁]
        rfl
      · unfold Workbook.linkKind?
        rw [hc₁]
        rfl
    | formula f =>
      by_cases hunread : e₁.IsUnread p
      · -- An unread formula came as it is, and was not linked before.
        left
        obtain ⟨c', f', hc', hf', hparsed⟩ := hunread
        rw [hc₁] at hc'
        cases hc'
        cases hf'
        have htree : e₁.workbook.tree? p = none := by
          unfold Workbook.tree? Cell.tree? Cell.formula? Formula.tree?
          rw [hc₁]
          dsimp only [Option.bind_some]
          rw [hparsed]
        refine linkedAt_of_blank htree ?_ hlink
        obtain ⟨old, c, himage, hc, -, -, heq⟩ := h.source p _ hc₁
        have hsame := heq fun hps => h.read p hps ⟨_, f, hc₁, rfl, hparsed⟩
        have hcell : e₁.workbook.cell? p = e.workbook.cell? old := by rw [hc₁, hc, hsame]
        have htree' : e.workbook.tree? old = none := (Workbook.tree?_eq_of_cell hcell).symm.trans htree
        rw [Workbook.linkKind?_eq_of_cell hcell, (he.linked old).kind_eq]
        unfold linkAt
        rw [htree']
        rfl
      · refine Or.inr ⟨List.mem_map.mpr ⟨(p, f.text), ?_, rfl⟩, hunread⟩
        exact (Workbook.mem_formulaTexts h.wellFormed).mpr ⟨_, hc₁, rfl⟩

/-- **An edit of lines is an edit** whose seeds are the formulas that read what moves, and those whose
texts were replaced. -/
theorem edit (h : Shifted id d sheet ps e e₁) (hd : e.IsEditable d) (he : e.Consistent)
    (hs : e.workbook.sheet? id = some sheet)
    (hseeds : ∀ q, q ∈ seeds ↔ (∃ p ∈ e.movedReaders id d, e.image id d p = some q) ∨ q ∈ ps) :
    Edit (e.image id d) e e₁ (e₁.workbook.formulaTexts.map Prod.fst) seeds := by
  have hcount := hd.line_le_lastLine
  have hps : ∀ q, q ∉ seeds → q ∉ ps := fun q hq hmem => hq ((hseeds q).mpr (Or.inr hmem))
  have halike : ∀ p q, e.image id d p = some q → e₁.workbook.cell? q = e.workbook.cell? p →
      q ∉ e₁.dirty → q ∉ seeds → Alike e p e₁ q := fun p q himage hcell hdirty hq =>
    h.alike he hs (fun q hmem => (hseeds q).mpr (Or.inl hmem)) himage hcell hdirty hq
  have hsource : ∀ q, (e₁.workbook.cell? q).isSome = true → q ∉ e₁.dirty → q ∉ seeds →
      ∃ p, e.image id d p = some q ∧ Alike e p e₁ q ∧ e₁.workbook.content? q = e.workbook.content? p := by
    intro q hstored hdirty hq
    obtain ⟨c₁, hc₁⟩ := Option.isSome_iff_exists.mp hstored
    obtain ⟨p, c, himage, hc, -, -, heq⟩ := h.source q c₁ hc₁
    have hcell : e₁.workbook.cell? q = e.workbook.cell? p := by rw [hc₁, hc, heq (hps q hq)]
    exact ⟨p, himage, halike p q himage hcell hdirty hq, Workbook.content?_eq_of_cell hcell⟩
  -- A formula that is no seed reads what does not move.
  have hbefore : ∀ q k, q ∉ e₁.dirty → q ∉ seeds → e₁.WouldRead q k →
      ∃ p, e.image id d p = some q ∧ e.WouldRead p k ∧
        (k.sheet = id → 1 ≤ d.lineOf k.address ∧ d.lineOf k.address < d.line) := by
    intro q k hdirty hq hread
    obtain ⟨p, himage, ha, -⟩ := hsource q (isSome_of_wouldRead hread) hdirty hq
    have hread : e.WouldRead p k := by
      unfold WouldRead at hread ⊢
      rw [ha.linkAt_eq] at hread
      exact hread
    refine ⟨p, himage, hread, before_of_wouldRead hd he (fun hp => hq ?_) hread⟩
    exact (hseeds q).mpr (Or.inl ⟨p, hp, himage⟩)
  constructor
  case settings_eq => exact h.settings_eq
  case library_eq => exact h.library_eq
  case orderly => exact h.orderly hd he hs
  case flagged =>
    intro q c₁ hc₁ hflag
    obtain ⟨p, c, himage, hc, hdirty, -, -⟩ := h.source q c₁ hc₁
    exact Or.inl ((h.mem_dirty q).mpr ⟨p, he.flagged p c hc (hdirty ▸ hflag), himage⟩)
  case linked => exact h.linkedAt he
  case closed =>
    intro k hk hread reader hreads
    by_cases hdirty : reader ∈ e₁.dirty
    · exact Or.inl hdirty
    by_cases hseed : reader ∈ seeds
    · exact Or.inr (Or.inl hseed)
    obtain ⟨p, himage, hreadp, hline⟩ := hbefore reader k hdirty hseed hreads
    obtain ⟨k', hk', himage'⟩ := (h.mem_dirty k).mp hk
    obtain rfl := LineEdit.eq_of_positionImage? hcount himage' fun hsheet => (hline hsheet).2
    by_cases hkps : k' ∈ ps
    · exact Or.inr (Or.inr ((hseeds k').mpr (Or.inr hkps)))
    · refine Or.inl ((h.mem_dirty reader).mpr ⟨p, he.closed k' hk' (fun hunread => hread ?_) p ?_, himage⟩)
      · exact (h.mem_unread k').mpr ⟨k', ⟨hunread, hkps⟩, himage'⟩
      · exact (reads_iff_wouldRead (he.linked p)).mpr hreadp
  case source => exact hsource
  case still =>
    intro q k hdirty hq hread hkd hks
    obtain ⟨p, -, -, hline⟩ := hbefore q k hdirty hq hread
    have himage : e.image id d k = some k :=
      LineEdit.positionImage?_of_before hd.line_le fun hsheet => (hline hsheet).2
    have hcell := h.cell?_of_before hd (fun hsheet => (hline hsheet).2) (hps k hks)
    exact ⟨himage, halike k k himage hcell hkd hks⟩
  case seen =>
    intro hroomy q k hdirty hq hread _ _
    obtain ⟨p, -, -, hline⟩ := hbefore q k hdirty hq hread
    rw [h.frame.isObscured_eq]
    unfold Workbook.isObscured
    rw [sheet?_movedWorkbook hs]
    split
    · next hsheet =>
      rw [hsheet, hs]
      exact LineEdit.hides_images hd.line_le (IsEditable.limit_lt hroomy d) (he.apart hroomy id sheet hs)
        (hline hsheet).1 (hline hsheet).2
    · rfl

end Shifted

/-- The engine after lines were edited and texts replaced, before anything is linked. -/
def shifted (e : Engine) (id : SheetId) (d : LineEdit) (sheet : Sheet) (edited : List (Position × String))
    (shown : List Position) : Engine :=
  let e' : Engine := { e with workbook := e.movedWorkbook id d sheet, names := e.movedNames id d }
  let e' := edited.foldl (fun e (p, text) => e.replaceFormula p text) e'
  { e' with
    dirty := imageOf (e.image id d) e'.dirty
    unread := imageOf (e.image id d) e'.unread
    changes := shown.foldl (fun s p => s.insert p) (imageOf (e.image id d) e'.changes)
    graph := {} }

theorem shifted_spec {e : Engine} (h : e.Consistent) {id : SheetId} {d : LineEdit} {sheet : Sheet}
    (hs : e.workbook.sheet? id = some sheet) (edited : List (Position × String)) (shown : List Position) :
    Shifted id d sheet (edited.map Prod.fst) e (e.shifted id d sheet edited shown) := by
  have hreworded := reworded_foldl edited
    { e with workbook := e.movedWorkbook id d sheet, names := e.movedNames id d }
  constructor
  case settings_eq => exact hreworded.settings_eq
  case library_eq =>
    show (edited.foldl _ _ : Engine).library = _
    rw [hreworded.rest_eq]
  case names_eq => exact hreworded.names_eq
  case graph_eq => rfl
  case frame => exact hreworded.frame
  case wellFormed => exact hreworded.wellFormed (h.wellFormed.modifySheet _ _)
  case source =>
    intro q c₁ hc₁
    obtain ⟨c, hc, hdirty, horderly⟩ := hreworded.cell q c₁ hc₁
    obtain ⟨p, himage, hcp⟩ := source_movedWorkbook hs hc
    refine ⟨p, c, himage, hcp, hdirty, horderly, fun hq => ?_⟩
    exact Option.some.inj (hc₁.symm.trans ((hreworded.cell_eq q hq).trans hc))
  case isSome =>
    intro p q himage hp
    show ((edited.foldl _ _ : Engine).workbook.cell? q).isSome = true
    rw [hreworded.isSome_eq]
    exact isSome_movedWorkbook hs himage hp
  case read => exact hreworded.read
  case mem_dirty =>
    intro q
    show q ∈ imageOf (e.image id d) (edited.foldl _ _ : Engine).dirty ↔ _
    rw [mem_imageOf, hreworded.dirty_eq]
  case mem_unread =>
    intro q
    show q ∈ imageOf (e.image id d) (edited.foldl _ _ : Engine).unread ↔ _
    rw [mem_imageOf]
    simp only [hreworded.unread_iff]

/-- An edit of lines that is accepted is for a sheet that is there, and is about some lines from a line of the grid
on. -/
theorem editable_eq_ok_iff {e : Engine} {id : SheetId} {d : LineEdit} {sheet : Sheet} :
    e.editable id d = .ok sheet ↔
      e.workbook.sheet? id = some sheet ∧ ¬(d.count = 0 ∨ d.line = 0 ∨ e.limit d.axis < d.line) := by
  unfold editable Workbook.get
  cases e.workbook.sheet? id with
  | none => simp
  | some sheet' =>
    dsimp only
    split
    · next hrefused => simp [hrefused]
    · next haccepted => simp [haccepted]

theorem editable_eq_ok {e : Engine} {id : SheetId} {d : LineEdit} {sheet : Sheet}
    (h : e.editable id d = .ok sheet) :
    e.workbook.sheet? id = some sheet ∧ 1 ≤ d.line ∧ d.line ≤ e.limit d.axis := by
  obtain ⟨hs, hline⟩ := editable_eq_ok_iff.mp h
  exact ⟨hs, by omega, by omega⟩

/-- What an accepted edit does. -/
theorem applyEdit_of_accepted {e : Engine} {id : SheetId} {d : LineEdit} {sheet : Sheet}
    (hs : e.workbook.sheet? id = some sheet) (h : (e.applyEdit id d).result = .ok ()) :
    e.editable id d = .ok sheet ∧ (e.applyEdit id d).engine = e.shiftLines id d sheet := by
  unfold applyEdit edit at h ⊢
  cases hchecked : e.editable id d with
  | error problem =>
    rw [hchecked, perform_error] at h
    cases h
  | ok sheet' =>
    rw [(editable_eq_ok hchecked).1] at hs
    cases hs
    exact ⟨rfl, rfl⟩

/-- The formulas whose texts an edit of lines replaces, at the positions to which they move, with their
new texts. -/
def rewrites (e : Engine) (id : SheetId) (d : LineEdit) (sheet : Sheet) : List (Position × String) :=
  (e.editedFormulas fun p r =>
    if r.refersTo p.sheet id sheet.name then d.newText? (e.limit d.axis) r else none).filterMap
      fun (p, text) => (e.image id d p).map fun q => (q, text)

/-- The positions on the affected part of a sheet where something is stored before lines are edited, or
afterwards. -/
def shownSpots (e : Engine) (id : SheetId) (d : LineEdit) (sheet : Sheet) : List Position :=
  let affected := d.affected e.settings.columns e.settings.rows
  (sheet.spotsIn affected ++ (e.movedSheet d sheet).spotsIn affected).map (·.on id)

/-- Lines are edited by moving everything, linking all formulas again, and marking what reads something
that moved or was rewritten. -/
theorem shiftLines_eq (e : Engine) (id : SheetId) (d : LineEdit) (sheet : Sheet) :
    e.shiftLines id d sheet =
      (((e.shifted id d sheet (e.rewrites id d sheet) (e.shownSpots id d sheet)).relinkAll
          ((e.shifted id d sheet (e.rewrites id d sheet)
            (e.shownSpots id d sheet)).workbook.formulaTexts.map Prod.fst)).markDirty
        ((e.movedReaders id d).filterMap (e.image id d) ++ (e.rewrites id d sheet).map Prod.fst)).afterEdit :=
  rfl

theorem changesTo_applyEdit {renamed : SheetId → Prop} {e : Engine} (h : e.Consistent)
    (hcount : e.settings.IsCountable) (id : SheetId) (d : LineEdit) : ChangesTo ErrorValue.sameKind renamed e (e.applyEdit id d).engine := by
  refine changesTo_perform h fun sheet hchecked => ?_
  obtain ⟨hs, hpos, hline⟩ := editable_eq_ok hchecked
  have hshifted := shifted_spec h (d := d) hs (e.rewrites id d sheet) (e.shownSpots id d sheet)
  have hseeds : ∀ q, q ∈ (e.movedReaders id d).filterMap (e.image id d) ++ (e.rewrites id d sheet).map Prod.fst ↔
      (∃ p ∈ e.movedReaders id d, e.image id d p = some q) ∨ q ∈ (e.rewrites id d sheet).map Prod.fst := by
    intro q
    rw [List.mem_append, List.mem_filterMap]
  rw [shiftLines_eq]
  have hedit := hshifted.edit ⟨hpos, hline, hcount⟩ h hs hseeds
  have hrevised : Revised ErrorValue.sameKind renamed e _ :=
    ⟨hedit.consistent, ⟨_, hedit.change.faithful h hedit.consistent⟩, fun reader p hclean hreads =>
      Or.inl (hedit.sheetName_eq (fun id' _ _ => ?_) hclean hreads)⟩
  · exact hrevised.changesTo_afterEdit
  · rw [hshifted.frame.sheetName_eq, sheet?_movedWorkbook hs]
    split
    · next hid =>
      rw [hid, hs]
      rfl
    · rfl

end Engine

end Spreadsheet
