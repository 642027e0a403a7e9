import Spreadsheet.Proofs.Marking

/-!
# Consistency: what holds of an engine between any two calls

`Engine.Consistent` is the invariant of the engine. It has three parts:

* `Engine.Orderly` — workbook, names, sets and marks are in order, each by itself;
* every position is linked (`LinkedAt`), so the graph matches the formulas;
* the dirty cells are closed under readers, except for loaded formulas that have not been read.

All calls that edit come to one shape: the engine is changed in some places, some formulas are linked
again, and some cells with all their readers are marked. `Engine.Edit` lists what has to be known of the
change in places. From it follow, for every edit alike, that the invariant is kept (`Edit.consistent`)
and what is known of the cells that the edit did not make dirty (`Edit.change`).
-/

namespace Spreadsheet

open Grid DependencyGraph Relation

/-- The grid is smaller than its lines can be counted, so no insertion is held at the last line. -/
def Settings.IsRoomy (s : Settings) : Prop := s.columns < lastLine ∧ s.rows < lastLine

/-! ### Cells in order -/

/-- A cell is in order: a constant shows its value, a formula that was read was read from its text, the
cell is not under evaluation, and the error mark is right. -/
structure Cell.IsOrderly (read : String → Except ErrorValue Expr) (c : Cell) : Prop where
  constant : ∀ v, c.content = .constant v → c.value = v
  formula : ∀ f, c.content = .formula f → f.parsed = none ∨ f.parsed = some (read f.text)
  idle : c.flags.evaluating = false
  error : c.ErrorMarkAgrees

theorem Cell.IsOrderly.of_unlinked {read : String → Except ErrorValue Expr} {c c' : Cell}
    (h : c.IsOrderly read) (heq : c'.unlinked = c.unlinked) : c'.IsOrderly read := by
  have hvalue : c'.value = c.value := by rw [← Cell.value_unlinked, heq, Cell.value_unlinked]
  have hflags : c'.flags = c.flags := by rw [← Cell.flags_unlinked, heq, Cell.flags_unlinked]
  have hcontent := congrArg Cell.content heq
  constructor
  · intro v hv
    rw [hvalue]
    apply h.constant
    obtain ⟨content, value, flags⟩ := c
    obtain ⟨content', value', flags'⟩ := c'
    cases hv
    cases content with
    | constant v' => exact hcontent.symm
    | formula f => cases hcontent
  · intro f hf
    obtain ⟨content, value, flags⟩ := c
    obtain ⟨content', value', flags'⟩ := c'
    cases hf
    cases content with
    | constant v' => cases hcontent
    | formula f' =>
      simp only [Cell.unlinked, Cell.setLinkError, Cell.modifyFormula, CellContent.formula.injEq,
        Formula.mk.injEq] at hcontent
      rw [hcontent.1, hcontent.2.1]
      exact h.formula f' rfl
  · rw [hflags]
    exact h.idle
  · unfold ErrorMarkAgrees
    rw [hflags, hvalue]
    exact h.error

theorem Cell.IsOrderly.markDirty {read : String → Except ErrorValue Expr} {c : Cell}
    (h : c.IsOrderly read) : c.markDirty.IsOrderly read :=
  ⟨h.constant, h.formula, h.idle, h.error⟩

theorem Cell.dirty_finish (c : Cell) (v : Value) : (c.finish v).flags.dirty = false := by
  unfold Cell.finish
  split <;> rfl

/-- A cell is in order when it is finished, if a constant is finished with itself. -/
theorem Cell.IsOrderly.finish {read : String → Except ErrorValue Expr} {c : Cell} (h : c.IsOrderly read)
    {v : Value} (hv : ∀ u, c.content = .constant u → v = u) : (c.finish v).IsOrderly read := by
  constructor
  · exact hv
  · exact h.formula
  · unfold Cell.finish
    split <;> rfl
  · rfl

namespace Engine

/-! ### The invariant -/

/-- Workbook, names, sets and marks of an engine are in order. The last two parts only hold where the
grid has room, since insertions that are held at the last line bring cells and regions together. -/
structure Orderly (e : Engine) : Prop where
  wellFormed : e.workbook.WellFormed
  names_lower : ∀ (key : String) (area : NamedArea), e.names.entries[key]? = some area → Text.lower key = key
  names_within : ∀ (key : String) (area : NamedArea), e.names.entries[key]? = some area → e.fits area.rect = true
  symmetric : e.graph.IsSymmetric
  cells : ∀ p c, e.workbook.cell? p = some c → c.IsOrderly e.readFormula
  stored : ∀ p ∈ e.dirty, (e.workbook.cell? p).isSome = true
  unread : ∀ p ∈ e.unread, p ∈ e.dirty
  marked : e.settings.IsRoomy → ∀ p c, e.workbook.cell? p = some c → p ∈ e.dirty → c.flags.dirty = true
  apart : e.settings.IsRoomy → ∀ id s, e.workbook.sheet? id = some s → MergesApart s.merges

/-- **The invariant of the engine.** -/
structure Consistent (e : Engine) : Prop extends Orderly e where
  flagged : ∀ p c, e.workbook.cell? p = some c → c.flags.dirty = true → p ∈ e.dirty
  linked : ∀ p, e.LinkedAt p
  closed : ∀ p ∈ e.dirty, p ∉ e.unread → ∀ reader, e.graph.Reads reader p → reader ∈ e.dirty

/-- An engine whose cells are the same in another workbook is still in order. -/
theorem Orderly.withWorkbook {e : Engine} (h : e.Orderly) {w' : Workbook} (hw : w'.WellFormed)
    (hcell : w'.cell? = e.workbook.cell?)
    (hapart : e.settings.IsRoomy → ∀ id s, w'.sheet? id = some s → MergesApart s.merges) :
    ({ e with workbook := w' } : Engine).Orderly := by
  refine { h with wellFormed := hw, cells := ?_, stored := ?_, marked := ?_, apart := hapart }
  · rw [hcell]
    exact h.cells
  · rw [hcell]
    exact h.stored
  · rw [hcell]
    exact h.marked

theorem readFormula_congr {e e' : Engine} (h : e'.settings = e.settings) :
    e'.readFormula = e.readFormula := by
  funext text
  unfold readFormula
  rw [h]

theorem merges_eq_of_frame {w w' : Workbook} (h : w'.SameFrame w) {id : SheetId} {s' : Sheet}
    (hs : w'.sheet? id = some s') : ∃ s, w.sheet? id = some s ∧ s'.merges = s.merges := by
  have hframe := congrFun h.frame_eq id
  unfold Workbook.frame at hframe
  rw [hs] at hframe
  cases hw : w.sheet? id with
  | none =>
    rw [hw] at hframe
    cases hframe
  | some s =>
    rw [hw] at hframe
    exact ⟨s, rfl, congrArg Prod.snd (Option.some.inj hframe)⟩

/-- Where settings, names and the frame of the workbook stay, only cells, sets and the graph are to be shown in
order. -/
theorem Orderly.of_sameFrame {e e' : Engine} (h : e.Orderly) (hsettings : e'.settings = e.settings)
    (hnames : e'.names = e.names) (hframe : e'.workbook.SameFrame e.workbook)
    (hw : e'.workbook.WellFormed) (hsymmetric : e'.graph.IsSymmetric)
    (hcells : ∀ p c, e'.workbook.cell? p = some c → c.IsOrderly e.readFormula)
    (hstored : ∀ p ∈ e'.dirty, (e'.workbook.cell? p).isSome = true) (hunread : ∀ p ∈ e'.unread, p ∈ e'.dirty)
    (hmarked : e.settings.IsRoomy → ∀ p c, e'.workbook.cell? p = some c → p ∈ e'.dirty →
      c.flags.dirty = true) : e'.Orderly := by
  constructor
  case wellFormed => exact hw
  case symmetric => exact hsymmetric
  case stored => exact hstored
  case unread => exact hunread
  case names_lower =>
    rw [hnames]
    exact h.names_lower
  case names_within =>
    intro key area harea
    rw [hnames] at harea
    have hfits := h.names_within key area harea
    unfold fits at hfits ⊢
    rw [hsettings]
    exact hfits
  case cells =>
    rw [readFormula_congr hsettings]
    exact hcells
  case marked =>
    rw [hsettings]
    exact hmarked
  case apart =>
    intro hroomy id s' hs'
    rw [hsettings] at hroomy
    obtain ⟨s, hs, heq⟩ := merges_eq_of_frame hframe hs'
    rw [heq]
    exact h.apart hroomy id s hs

theorem Orderly.of_upToLinks {e e' : Engine} (h : e.Orderly) (hup : e.UpToLinks e')
    (hg : e'.graph.IsSymmetric) : e'.Orderly := by
  refine h.of_sameFrame hup.settings_eq hup.names_eq hup.frame (hup.wellFormed h.wellFormed) hg
    ?cells ?stored ?unread ?marked
  case cells =>
    intro p c' hc'
    obtain ⟨c, hc, heq⟩ := hup.cell? hc'
    exact (h.cells p c hc).of_unlinked heq
  case stored =>
    intro p hp
    rw [hup.dirty_eq] at hp
    rw [hup.isSome_cell?]
    exact h.stored p hp
  case unread =>
    rw [hup.unread_eq, hup.dirty_eq]
    exact h.unread
  case marked =>
    intro hroomy p c' hc' hp
    rw [hup.dirty_eq] at hp
    obtain ⟨c, hc, heq⟩ := hup.cell? hc'
    rw [← Cell.flags_unlinked, heq, Cell.flags_unlinked]
    exact h.marked hroomy p c hc hp

theorem Orderly.of_markedBy {P : Position → Prop} {e e' : Engine} (h : e.Orderly)
    (hm : MarkedBy P e e') : e'.Orderly := by
  refine h.of_sameFrame hm.settings_eq hm.names_eq hm.frame (hm.wellFormed h.wellFormed)
    (hm.graph_eq ▸ h.symmetric) ?cells ?stored ?unread ?marked
  case cells =>
    intro p c' hc'
    obtain ⟨c, hc, ⟨-, rfl⟩ | ⟨-, rfl⟩⟩ := hm.cell? hc'
    · exact (h.cells p c hc).markDirty
    · exact h.cells p c' hc
  case stored =>
    intro p hp
    rw [hm.isSome_cell?]
    rcases (hm.mem_dirty p).mp hp with hold | ⟨-, hstored⟩
    · exact h.stored p hold
    · exact hstored
  case unread =>
    intro p hp
    rw [hm.unread_eq] at hp
    exact (hm.mem_dirty p).mpr (Or.inl (h.unread p hp))
  case marked =>
    intro hroomy p c' hc' hp
    obtain ⟨c, hc, ⟨-, rfl⟩ | ⟨hP, rfl⟩⟩ := hm.cell? hc'
    · rfl
    · rcases (hm.mem_dirty p).mp hp with hold | ⟨hP', -⟩
      · exact h.marked hroomy p c' hc hold
      · exact absurd hP' hP

/-- A mark on a cell that marking has left or set stands for a dirty cell, if each mark before did, or
belongs to a cell that was to be marked. -/
theorem flagged_of_markedBy {P : Position → Prop} {e e' : Engine} (hm : MarkedBy P e e')
    (h : ∀ p c, e.workbook.cell? p = some c → c.flags.dirty = true → p ∈ e.dirty ∨ P p) :
    ∀ p c, e'.workbook.cell? p = some c → c.flags.dirty = true → p ∈ e'.dirty := by
  intro p c' hc' hflag
  rw [hm.mem_dirty]
  obtain ⟨c, hc, ⟨hP, rfl⟩ | ⟨-, rfl⟩⟩ := hm.cell? hc'
  · exact Or.inr ⟨hP, by rw [hc]; rfl⟩
  · exact (h p c' hc hflag).imp_right fun hP => ⟨hP, by rw [hc]; rfl⟩

/-! ### Edits -/

/-- The formula at a position reads a cell, by its own references. In an engine that is linked this is
what the graph has. -/
def WouldRead (e : Engine) (reader p : Position) : Prop := ∃ a ∈ (e.linkAt reader).areas, a.covers p = true

theorem reads_iff_wouldRead {e : Engine} {reader p : Position} (h : e.LinkedAt reader) :
    e.graph.Reads reader p ↔ e.WouldRead reader p := by
  unfold Reads WouldRead
  rw [← h.link_eq]
  rfl

/-- A position of one engine has what a position of another has: the same cell up to marks and link
errors, on the same sheet, with the same record in the graph. If it has a formula whose references all
mean something, each of them means the same. And it was not dirty before. -/
structure Alike (e : Engine) (p : Position) (e' : Engine) (p' : Position) : Prop where
  sheet_eq : p'.sheet = p.sheet
  core_eq : e'.workbook.core? p' = e.workbook.core? p
  linkAt_eq : e'.linkAt p' = e.linkAt p
  agree : ∀ x, e.workbook.tree? p = some x → (e.linkAt p).unresolved = false →
    ∀ entry ∈ x.references, e.scope.AgreeOn e'.scope p.sheet entry.2
  clean : p ∉ e.dirty

/-- The change `e₁` to an engine `e` that an edit begins with, when it goes on to link the formulas `ps`
again and to mark the cells `seeds` with all their readers. Cells may have moved: `image` tells where
each position went.

What is not dirty afterwards has to be known from before: `source` says so of every cell, and `still` of
what such a cell reads, which has to be where it was. -/
structure Edit (image : Position → Option Position) (e e₁ : Engine) (ps seeds : List Position) :
    Prop where
  settings_eq : e₁.settings = e.settings
  library_eq : e₁.library = e.library
  orderly : e₁.Orderly
  flagged : ∀ p c, e₁.workbook.cell? p = some c → c.flags.dirty = true → p ∈ e₁.dirty ∨ p ∈ seeds
  linked : ∀ p, e₁.LinkedAt p ∨ (p ∈ ps ∧ ¬e₁.IsUnread p)
  closed : ∀ k ∈ e₁.dirty, k ∉ e₁.unread → ∀ reader, e₁.WouldRead reader k →
    reader ∈ e₁.dirty ∨ reader ∈ seeds ∨ k ∈ seeds
  source : ∀ p', (e₁.workbook.cell? p').isSome = true → p' ∉ e₁.dirty → p' ∉ seeds →
    ∃ p, image p = some p' ∧ Alike e p e₁ p' ∧ e₁.workbook.content? p' = e.workbook.content? p
  still : ∀ p' q, p' ∉ e₁.dirty → p' ∉ seeds → e₁.WouldRead p' q → q ∉ e₁.dirty → q ∉ seeds →
    image q = some q ∧ Alike e q e₁ q
  seen : e.settings.IsRoomy → ∀ p' q, p' ∉ e₁.dirty → p' ∉ seeds → e₁.WouldRead p' q → q ∉ e₁.dirty →
    q ∉ seeds → e₁.workbook.isObscured q = e.workbook.isObscured q

/-- What an edit comes to for the cells that are not dirty afterwards. -/
structure Change (image : Position → Option Position) (e e' : Engine) : Prop where
  settings_eq : e'.settings = e.settings
  library_eq : e'.library = e.library
  source : ∀ p', (e'.workbook.cell? p').isSome = true → p' ∉ e'.dirty →
    ∃ p, image p = some p' ∧ Alike e p e' p'
  still : ∀ p' q, p' ∉ e'.dirty → e'.graph.Reads p' q → q ∉ e'.dirty →
    image q = some q ∧ Alike e q e' q
  seen : e.settings.IsRoomy → ∀ p' q, p' ∉ e'.dirty → e'.graph.Reads p' q → q ∉ e'.dirty →
    e'.workbook.isObscured q = e.workbook.isObscured q

theorem isSome_of_wouldRead {e : Engine} {reader p : Position} (h : e.WouldRead reader p) :
    (e.workbook.cell? reader).isSome = true := by
  obtain ⟨a, ha, -⟩ := h
  unfold linkAt at ha
  cases hc : e.workbook.cell? reader with
  | some c => rfl
  | none =>
    have htree : e.workbook.tree? reader = none := by
      unfold Workbook.tree?
      rw [hc]
      rfl
    rw [htree] at ha
    exact absurd ha List.not_mem_nil

/-- An area that is recorded is meant by a reference. -/
theorem exists_reference_of_mem_areas {e : Engine} {p : Position} {a : Area} (h : a ∈ (e.linkAt p).areas) :
    ∃ x, e.workbook.tree? p = some x ∧
      ∃ entry ∈ x.references, e.scope.resolve entry.2 p.sheet = .ok a := by
  unfold linkAt at h
  cases hx : e.workbook.tree? p with
  | none =>
    rw [hx] at h
    exact absurd h List.not_mem_nil
  | some x =>
    rw [hx] at h
    dsimp only at h
    unfold linkOf at h
    cases hr : resolveAll e.scope p.sheet x.references with
    | error problem =>
      rw [hr] at h
      exact absurd h List.not_mem_nil
    | ok areas =>
      rw [hr] at h
      exact ⟨x, rfl, ((resolveAll_eq_ok hr).2 a).mp h⟩

/-- What a formula reads lies on a sheet that is there. -/
theorem contains_of_wouldRead {e : Engine} {reader p : Position} (h : e.WouldRead reader p) :
    e.workbook.contains p.sheet = true := by
  have hsheet := Workbook.contains_of_cell? (isSome_of_wouldRead h)
  obtain ⟨a, ha, hcovers⟩ := h
  obtain ⟨x, -, entry, -, hmeans⟩ := exists_reference_of_mem_areas ha
  rw [← ((Area.covers_iff a p).mp hcovers).1]
  exact contains_of_resolve hsheet hmeans

namespace Edit

variable {image : Position → Option Position} {e e₁ : Engine} {ps seeds : List Position}

/-- What is left of an edit after its change in places: the formulas are linked, and the seeds marked
with all that depends on them. -/
theorem finished (h : Edit image e e₁ ps seeds) :
    (∀ p, (e₁.relinkAll ps).LinkedAt p) ∧
      MarkedBy (fun q => ∃ p ∈ seeds, ReflTransGen (e₁.relinkAll ps).graph.Reads q p)
        (e₁.relinkAll ps) ((e₁.relinkAll ps).markDirty seeds) :=
  ⟨linked_relinkAll ps h.linked, markedBy_markDirty (isSymmetric_relinkAll h.orderly.symmetric ps) seeds⟩

theorem unread_eq (h : Edit image e e₁ ps seeds) :
    ((e₁.relinkAll ps).markDirty seeds).unread = e₁.unread := by
  rw [h.finished.2.unread_eq, (upToLinks_relinkAll e₁ ps).unread_eq]

theorem reads_iff (h : Edit image e e₁ ps seeds) {reader p : Position} :
    ((e₁.relinkAll ps).markDirty seeds).graph.Reads reader p ↔ e₁.WouldRead reader p := by
  obtain ⟨hlinked, hm⟩ := h.finished
  rw [hm.graph_eq, reads_iff_wouldRead (hlinked reader)]
  unfold WouldRead
  rw [(upToLinks_relinkAll e₁ ps).linkAt_eq]

/-- A cell is dirty after an edit if it was so after the change, or depends on a seed. -/
theorem mem_dirty (h : Edit image e e₁ ps seeds) {q : Position} :
    q ∈ ((e₁.relinkAll ps).markDirty seeds).dirty ↔
      q ∈ e₁.dirty ∨ ((e₁.workbook.cell? q).isSome = true ∧
        ∃ p ∈ seeds, ReflTransGen ((e₁.relinkAll ps).markDirty seeds).graph.Reads q p) := by
  obtain ⟨-, hm⟩ := h.finished
  have hup := upToLinks_relinkAll e₁ ps
  rw [hm.mem_dirty, hup.dirty_eq, hup.isSome_cell?, hm.graph_eq, and_comm]

/-- **Every edit keeps the invariant.** -/
theorem consistent (h : Edit image e e₁ ps seeds) :
    ((e₁.relinkAll ps).markDirty seeds).Consistent := by
  obtain ⟨hlinked, hm⟩ := h.finished
  have hup := upToLinks_relinkAll e₁ ps
  have horderly := (h.orderly.of_upToLinks hup
    (isSymmetric_relinkAll h.orderly.symmetric ps)).of_markedBy hm
  refine ⟨horderly, flagged_of_markedBy hm fun p c' hc' hflag => ?_, fun p => hm.linkedAt (hlinked p), ?_⟩
  · obtain ⟨c, hc, heq⟩ := hup.cell? hc'
    rw [hup.dirty_eq]
    have hold : c.flags.dirty = true := by
      rw [← hflag, ← Cell.flags_unlinked c, ← heq, Cell.flags_unlinked]
    exact (h.flagged p c hc hold).imp_right fun hs => ⟨p, hs, ReflTransGen.refl⟩
  intro k hk hread reader hreads
  rw [hm.unread_eq, hup.unread_eq] at hread
  have hwould := h.reads_iff.mp hreads
  have hstored := isSome_of_wouldRead hwould
  rw [h.mem_dirty]
  rcases h.mem_dirty.mp hk with hk | ⟨-, seed, hseed, hwalk⟩
  · rcases h.closed k hk hread reader hwould with hd | hs | hs
    · exact Or.inl hd
    · exact Or.inr ⟨hstored, reader, hs, ReflTransGen.refl⟩
    · exact Or.inr ⟨hstored, k, hs, ReflTransGen.single hreads⟩
  · exact Or.inr ⟨hstored, seed, hseed, hwalk.head hreads⟩

/-- What is not dirty after an edit was neither dirty after the change nor is it a seed. -/
theorem clean_of_after (h : Edit image e e₁ ps seeds) {q : Position}
    (hstored : (e₁.workbook.cell? q).isSome = true)
    (hq : q ∉ ((e₁.relinkAll ps).markDirty seeds).dirty) : q ∉ e₁.dirty ∧ q ∉ seeds := by
  rw [h.mem_dirty] at hq
  exact ⟨fun hd => hq (Or.inl hd), fun hs => hq (Or.inr ⟨hstored, q, hs, ReflTransGen.refl⟩)⟩

/-- What is alike after the change is so after the edit. -/
theorem alike_after (h : Edit image e e₁ ps seeds) {p p' : Position} (ha : Alike e p e₁ p') :
    Alike e p ((e₁.relinkAll ps).markDirty seeds) p' := by
  have hm := h.finished.2
  have hup := upToLinks_relinkAll e₁ ps
  refine ⟨ha.sheet_eq, ?_, ?_, ?_, ha.clean⟩
  · rw [hm.core?_eq, hup.core?_eq, ha.core_eq]
  · rw [hm.linkAt_eq, hup.linkAt_eq, ha.linkAt_eq]
  · rw [hm.scope_eq, hup.scope_eq]
    exact ha.agree

theorem isSome_after (h : Edit image e e₁ ps seeds) (q : Position) :
    (((e₁.relinkAll ps).markDirty seeds).workbook.cell? q).isSome = (e₁.workbook.cell? q).isSome := by
  rw [h.finished.2.isSome_cell?, (upToLinks_relinkAll e₁ ps).isSome_cell?]

/-- **What an edit did not make dirty is as it was**, and so is what it reads. -/
theorem change (h : Edit image e e₁ ps seeds) :
    Change image e ((e₁.relinkAll ps).markDirty seeds) := by
  obtain ⟨-, hm⟩ := h.finished
  have hup := upToLinks_relinkAll e₁ ps
  have hread : ∀ p' q, p' ∉ ((e₁.relinkAll ps).markDirty seeds).dirty →
      ((e₁.relinkAll ps).markDirty seeds).graph.Reads p' q →
      q ∉ ((e₁.relinkAll ps).markDirty seeds).dirty →
      p' ∉ e₁.dirty ∧ p' ∉ seeds ∧ e₁.WouldRead p' q ∧ q ∉ e₁.dirty ∧ q ∉ seeds := by
    intro p' q hp' hreads hq
    have hwould := h.reads_iff.mp hreads
    have hstored := isSome_of_wouldRead hwould
    obtain ⟨hd, hs⟩ := h.clean_of_after hstored hp'
    refine ⟨hd, hs, hwould, fun hqd => hq (h.mem_dirty.mpr (Or.inl hqd)), fun hqs => hp' ?_⟩
    exact h.mem_dirty.mpr (Or.inr ⟨hstored, q, hqs, ReflTransGen.single hreads⟩)
  constructor
  case settings_eq => rw [hm.settings_eq, hup.settings_eq, h.settings_eq]
  case library_eq => rw [hm.library_eq, hup.library_eq, h.library_eq]
  case source =>
    intro p' hstored hp'
    rw [h.isSome_after] at hstored
    obtain ⟨hd, hs⟩ := h.clean_of_after hstored hp'
    obtain ⟨p, hp, ha, -⟩ := h.source p' hstored hd hs
    exact ⟨p, hp, h.alike_after ha⟩
  case still =>
    intro p' q hp' hreads hq
    obtain ⟨hd, hs, hwould, hqd, hqs⟩ := hread p' q hp' hreads hq
    obtain ⟨hi, ha⟩ := h.still p' q hd hs hwould hqd hqs
    exact ⟨hi, h.alike_after ha⟩
  case seen =>
    intro hroomy p' q hp' hreads hq
    obtain ⟨hd, hs, hwould, hqd, hqs⟩ := hread p' q hp' hreads hq
    have hframe := hm.frame.trans hup.frame
    rw [hframe.isObscured_eq]
    exact h.seen hroomy p' q hd hs hwould hqd hqs

end Edit

/-! ### Edits that move nothing -/

/-- A position at which a change has left everything as it was: cell, record and membership in the sets,
and what the references of its formula mean. -/
structure Untouched (e e₁ : Engine) (p : Position) : Prop where
  core_eq : e₁.workbook.core? p = e.workbook.core? p
  content_eq : e₁.workbook.content? p = e.workbook.content? p
  link_eq : e₁.graph.link p = e.graph.link p
  linkAt_eq : e₁.linkAt p = e.linkAt p
  agree : ∀ x, e.workbook.tree? p = some x → (e.linkAt p).unresolved = false →
    ∀ entry ∈ x.references, e.scope.AgreeOn e₁.scope p.sheet entry.2
  dirty_iff : p ∈ e₁.dirty ↔ p ∈ e.dirty
  unread_iff : p ∈ e₁.unread ↔ p ∈ e.unread

/-- What is to be recorded of a formula depends on what its references mean. -/
theorem linkAt_congr {e e' : Engine} {p p' : Position} (hsheet : p'.sheet = p.sheet)
    (htree : e'.workbook.tree? p' = e.workbook.tree? p)
    (hagree : ∀ x, e.workbook.tree? p = some x → ∀ entry ∈ x.references,
      e.scope.AgreeOn e'.scope p.sheet entry.2) : e'.linkAt p' = e.linkAt p := by
  unfold linkAt
  rw [htree]
  cases hx : e.workbook.tree? p with
  | none => rfl
  | some x =>
    dsimp only
    unfold linkOf
    rw [hsheet, toOption_resolveAll_congr (hagree x hx)]

/-- A formula is unresolved if one of its references means nothing. -/
theorem unresolved_linkAt {e : Engine} {p : Position} {x : Expr} (hx : e.workbook.tree? p = some x) :
    (e.linkAt p).unresolved = false ↔
      ∀ entry ∈ x.references, ∃ a, e.scope.resolve entry.2 p.sheet = .ok a := by
  unfold linkAt
  rw [hx]
  show (resolveAll e.scope p.sheet x.references).toOption.isNone = false ↔ _
  rw [← resolveAll_isOk_iff]
  cases resolveAll e.scope p.sheet x.references with
  | ok areas => simp [Except.toOption]
  | error problem => simp [Except.toOption]

/-- A formula that is unresolved in two engines is recorded alike in both. -/
theorem linkAt_of_unresolved {e e' : Engine} {p : Position}
    (htree : e'.workbook.tree? p = e.workbook.tree? p) (h : (e.linkAt p).unresolved = true)
    (h' : (e'.linkAt p).unresolved = true) : e'.linkAt p = e.linkAt p := by
  unfold linkAt at h h' ⊢
  rw [htree] at h' ⊢
  cases hx : e.workbook.tree? p with
  | none => rfl
  | some x =>
    rw [hx] at h h'
    dsimp only at h h' ⊢
    unfold linkOf at h h' ⊢
    cases hr : resolveAll e.scope p.sheet x.references with
    | ok areas =>
      rw [hr] at h
      cases h
    | error problem =>
      cases hr' : resolveAll e'.scope p.sheet x.references with
      | ok areas =>
        rw [hr'] at h'
        cases h'
      | error problem' => rfl

/-- The area that a reference means is recorded, if the formula is not unresolved. -/
theorem mem_areas_linkAt {e : Engine} {p : Position} {x : Expr} (hx : e.workbook.tree? p = some x)
    (h : (e.linkAt p).unresolved = false) {entry : String × Reference} (hentry : entry ∈ x.references)
    {a : Area} (ha : e.scope.resolve entry.2 p.sheet = .ok a) : a ∈ (e.linkAt p).areas := by
  unfold linkAt at h ⊢
  rw [hx] at h ⊢
  dsimp only at h ⊢
  unfold linkOf at h ⊢
  cases hr : resolveAll e.scope p.sheet x.references with
  | error problem =>
    rw [hr] at h
    cases h
  | ok areas => exact ((resolveAll_eq_ok hr).2 a).mpr ⟨entry, hentry, ha⟩

/-- A formula that was read is not unread. -/
theorem not_isUnread_of_tree {e : Engine} {p : Position} (h : (e.workbook.tree? p).isSome = true) :
    ¬e.IsUnread p := by
  rintro ⟨c, f, hc, hf, hparsed⟩
  obtain ⟨x, hx⟩ := Option.isSome_iff_exists.mp h
  unfold Workbook.tree? at hx
  rw [hc, Option.bind_some] at hx
  obtain ⟨f', hf', hparsed'⟩ := Cell.tree?_eq_some.mp hx
  rw [hf] at hf'
  cases hf'
  rw [hparsed] at hparsed'
  cases hparsed'

/-- Only formulas that were read are recorded. -/
theorem isSome_tree_of_link {e : Engine} {p : Position} (h : e.LinkedAt p) (hlink : e.graph.link p ≠ {}) :
    (e.workbook.tree? p).isSome = true := by
  rw [h.link_eq] at hlink
  unfold linkAt at hlink
  cases hx : e.workbook.tree? p with
  | some x => rfl
  | none =>
    rw [hx] at hlink
    exact absurd rfl hlink

theorem linkedAt_of_no_cell {e : Engine} {p : Position} (hc : e.workbook.cell? p = none)
    (hlink : e.graph.link p = {}) : e.LinkedAt p := by
  refine linkedAt_of_blank ?_ ?_ hlink
  · unfold Workbook.tree?
    rw [hc]
    rfl
  · unfold Workbook.linkKind?
    rw [hc]
    rfl

theorem link_of_no_cell {e : Engine} {p : Position} (h : e.LinkedAt p)
    (hc : e.workbook.cell? p = none) : e.graph.link p = {} := by
  rw [h.link_eq]
  unfold linkAt Workbook.tree?
  rw [hc]
  rfl

/-- A cell that is what it was is untouched, if its references mean what they meant. -/
theorem untouched_of_agree {e e₁ : Engine} {p : Position}
    (hcore : e₁.workbook.core? p = e.workbook.core? p)
    (hcontent : e₁.workbook.content? p = e.workbook.content? p)
    (hlink : e₁.graph.link p = e.graph.link p)
    (hagree : ∀ x, e.workbook.tree? p = some x → ∀ entry ∈ x.references,
      e.scope.AgreeOn e₁.scope p.sheet entry.2)
    (hdirty : p ∈ e₁.dirty ↔ p ∈ e.dirty) (hunread : p ∈ e₁.unread ↔ p ∈ e.unread) : Untouched e e₁ p :=
  ⟨hcore, hcontent, hlink, linkAt_congr rfl (Workbook.tree?_congr hcore) hagree, fun x hx _ => hagree x hx,
    hdirty, hunread⟩

/-- Where all references mean the same, a cell that is what it was is untouched. -/
theorem untouched_of_scope {e e₁ : Engine} {p : Position} (hscope : e₁.scope = e.scope)
    (hcore : e₁.workbook.core? p = e.workbook.core? p)
    (hcontent : e₁.workbook.content? p = e.workbook.content? p)
    (hlink : e₁.graph.link p = e.graph.link p) (hdirty : p ∈ e₁.dirty ↔ p ∈ e.dirty)
    (hunread : p ∈ e₁.unread ↔ p ∈ e.unread) : Untouched e e₁ p := by
  refine untouched_of_agree hcore hcontent hlink (fun x _ entry _ => ?_) hdirty hunread
  rw [hscope]
  exact Scope.AgreeOn.refl _ _ _

namespace Untouched

variable {e e₁ : Engine} {p : Position}

theorem linkedAt (h : Untouched e e₁ p) (hp : e.LinkedAt p) : e₁.LinkedAt p :=
  ⟨by rw [h.link_eq, h.linkAt_eq, hp.link_eq],
    by rw [Workbook.linkKind?_congr h.content_eq, h.linkAt_eq, hp.kind_eq]⟩

theorem alike (h : Untouched e e₁ p) (hp : p ∉ e₁.dirty) : Alike e p e₁ p :=
  ⟨rfl, h.core_eq, h.linkAt_eq, h.agree, fun hd => hp (h.dirty_iff.mpr hd)⟩

end Untouched

/-- **An edit that moves nothing.** Outside of the positions `touched` everything is as it was. Each of
these is a seed, or holds a formula that is still to be read, or is gone and read by no one outside. -/
theorem Edit.inPlace {e e₁ : Engine} {ps seeds : List Position} (touched : Position → Prop)
    (he : e.Consistent) (hsettings : e₁.settings = e.settings) (hlibrary : e₁.library = e.library)
    (horderly : e₁.Orderly)
    (hflagged : ∀ p c, e₁.workbook.cell? p = some c → c.flags.dirty = true → p ∈ e₁.dirty ∨ p ∈ seeds)
    (hlinked : ∀ p, touched p → e₁.LinkedAt p ∨ (p ∈ ps ∧ ¬e₁.IsUnread p))
    (htouched : ∀ p, touched p → p ∈ seeds ∨ (p ∈ e₁.dirty ∧ p ∈ e₁.unread) ∨
      (e₁.workbook.cell? p = none ∧ p ∉ e₁.dirty ∧ ∀ reader, ¬touched reader → ¬e.WouldRead reader p))
    (hrest : ∀ p, ¬touched p → Untouched e e₁ p)
    (hseen : e.settings.IsRoomy → ∀ p q, ¬touched p → e.WouldRead p q →
      e₁.workbook.isObscured q = e.workbook.isObscured q) : Edit some e e₁ ps seeds := by
  have huntouched : ∀ p, (e₁.workbook.cell? p).isSome = true → p ∉ e₁.dirty → p ∉ seeds → ¬touched p := by
    intro p hstored hd hs ht
    rcases htouched p ht with h | h | h
    · exact hs h
    · exact hd h.1
    · rw [h.1] at hstored
      cases hstored
  have hwould : ∀ p q, ¬touched p → e₁.WouldRead p q → e.WouldRead p q := by
    intro p q hp hread
    unfold WouldRead at hread ⊢
    rw [(hrest p hp).linkAt_eq] at hread
    exact hread
  constructor
  case settings_eq => exact hsettings
  case library_eq => exact hlibrary
  case orderly => exact horderly
  case flagged => exact hflagged
  case linked =>
    intro p
    by_cases hp : touched p
    · exact hlinked p hp
    · exact Or.inl ((hrest p hp).linkedAt (he.linked p))
  case closed =>
    intro k hk hread reader hreads
    have hkt : ¬touched k ∨ k ∈ seeds := by
      by_cases hkt : touched k
      · rcases htouched k hkt with h | h | h
        · exact Or.inr h
        · exact absurd h.2 hread
        · exact absurd hk h.2.1
      · exact Or.inl hkt
    rcases hkt with hkt | hks
    · by_cases hrt : touched reader
      · rcases htouched reader hrt with h | h | h
        · exact Or.inr (Or.inl h)
        · exact Or.inl h.1
        · have hstored := isSome_of_wouldRead hreads
          rw [h.1] at hstored
          cases hstored
      · left
        rw [(hrest reader hrt).dirty_iff]
        refine he.closed k ((hrest k hkt).dirty_iff.mp hk)
          (fun hu => hread ((hrest k hkt).unread_iff.mpr hu)) reader ?_
        exact (reads_iff_wouldRead (he.linked reader)).mpr (hwould reader k hrt hreads)
    · exact Or.inr (Or.inr hks)
  case source =>
    intro p' hstored hd hs
    have huntouched' := hrest p' (huntouched p' hstored hd hs)
    exact ⟨p', rfl, huntouched'.alike hd, huntouched'.content_eq⟩
  case still =>
    intro p' q hd hs hread hqd hqs
    have hp := huntouched p' (isSome_of_wouldRead hread) hd hs
    refine ⟨rfl, (hrest q fun hq => ?_).alike hqd⟩
    rcases htouched q hq with h | h | h
    · exact hqs h
    · exact hqd h.1
    · exact h.2.2 p' hp (hwould p' q hp hread)
  case seen =>
    intro hroomy p' q hd hs hread _ _
    have hp := huntouched p' (isSome_of_wouldRead hread) hd hs
    exact hseen hroomy p' q hp (hwould p' q hp hread)

end Engine

end Spreadsheet
