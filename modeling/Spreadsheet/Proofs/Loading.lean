import Spreadsheet.Proofs.Due

/-!
# Loading: reading the texts of loaded formulas

A pass begins by reading the loaded formulas. `Engine.ReadFrom` says what reading several of them comes
to: their cells are read, everything is linked that was linked, and beside cells and graph nothing
changes. So it is an edit like any other (`edit_readAllLoaded`), with the positions of the formulas as its
seeds, and afterwards no formula is left unread (`readAllLoaded_spec`).
-/

namespace Spreadsheet

open DependencyGraph

/-- A cell with its formula, if it has one, read anew from its text. -/
def Cell.readAs (read : String → Except ErrorValue Expr) (c : Cell) : Cell :=
  match c.formulaText? with
  | none => c
  | some text => c.read (read text)

namespace Cell

variable (r : String → Except ErrorValue Expr) (c : Cell)

theorem unlinked_readAs : (c.readAs r).unlinked = c.unlinked.readAs r := by
  obtain ⟨content, value, flags⟩ := c
  cases content <;> rfl

theorem readAs_readAs : (c.readAs r).readAs r = c.readAs r := by
  obtain ⟨content, value, flags⟩ := c
  cases content <;> rfl

theorem dirty_readAs : (c.readAs r).flags.dirty = c.flags.dirty := by
  obtain ⟨content, value, flags⟩ := c
  cases content <;> rfl

theorem value_readAs : (c.readAs r).value = c.value := by
  obtain ⟨content, value, flags⟩ := c
  cases content <;> rfl

/-- A formula read from its text is in order. -/
theorem IsOrderly.readAs {c : Cell} (h : c.IsOrderly r) : (c.readAs r).IsOrderly r := by
  obtain ⟨content, value, flags⟩ := c
  cases content with
  | constant v => exact h
  | formula f =>
    refine ⟨fun v hv => ?_, fun g hg => ?_, h.idle, h.error⟩
    · cases hv
    · right
      cases hg
      rfl

end Cell

namespace Engine

/-- One engine is the other after the formulas at some positions were read and linked. -/
structure ReadFrom (ps : List Position) (e e' : Engine) : Prop where
  rest_eq : e' = { e with workbook := e'.workbook, graph := e'.graph }
  frame : e'.workbook.SameFrame e.workbook
  wellFormed : e.workbook.WellFormed → e'.workbook.WellFormed
  symmetric : e.graph.IsSymmetric → e'.graph.IsSymmetric
  linked : (∀ q, e.LinkedAt q) → ∀ q, e'.LinkedAt q
  cell_eq : ∀ q, (e'.workbook.cell? q).map Cell.unlinked =
    (e.workbook.cell? q).map fun c => if q ∈ ps then c.unlinked.readAs e.readFormula else c.unlinked
  other_eq : ∀ q, q ∉ ps → e'.workbook.cell? q = e.workbook.cell? q

/-- Linking again is reading where there is nothing to read. -/
theorem readFrom_of_upToLinks {ps : List Position} {e e' : Engine} (hup : e.UpToLinks e')
    (hsymmetric : e.graph.IsSymmetric → e'.graph.IsSymmetric)
    (hlinked : (∀ q, e.LinkedAt q) → ∀ q, e'.LinkedAt q)
    (hread : ∀ q ∈ ps, ∀ c, e.workbook.cell? q = some c → c.unlinked.readAs e.readFormula = c.unlinked)
    (hother : ∀ q, q ∉ ps → e'.workbook.cell? q = e.workbook.cell? q) : ReadFrom ps e e' := by
  refine ⟨hup.rest_eq, hup.frame, hup.wellFormed, hsymmetric, hlinked, fun q => ?_, hother⟩
  rw [hup.unlinked_eq]
  cases hc : e.workbook.cell? q with
  | none => rfl
  | some c =>
    rw [Option.map_some, Option.map_some]
    split
    · next hq => rw [hread q hq c hc]
    · rfl

/-- The engine with a loaded formula read from its text, before it is linked. -/
def withTextRead (e : Engine) (p : Position) (text : String) : Engine :=
  { e with workbook := e.workbook.modifyCell p fun c => c.read (e.readFormula text) }

section TextRead

variable {e : Engine} {p : Position} {text : String}

theorem sameFrame_withTextRead : (e.withTextRead p text).workbook.SameFrame e.workbook :=
  Workbook.sameFrame_modifyCell _ _ _

/-- Reading a formula leaves the links of the other cells in order. -/
theorem linkedAt_withTextRead {q : Position} (hq : q ≠ p) (h : e.LinkedAt q) : (e.withTextRead p text).LinkedAt q := by
  have hsame : (e.withTextRead p text).workbook.cell? q = e.workbook.cell? q :=
    (Workbook.cell?_modifyCell _ _ _ _).trans (if_neg hq)
  have hscope : (e.withTextRead p text).scope = e.scope := sameFrame_withTextRead.scope_eq e.names e.settings
  have hlink : (e.withTextRead p text).linkAt q = e.linkAt q := by
    unfold linkAt
    rw [Workbook.tree?_eq_of_cell hsame, hscope]
  constructor
  · rw [hlink]
    exact h.link_eq
  · rw [hlink, ← h.kind_eq]
    exact Workbook.linkKind?_eq_of_cell hsame

variable {c : Cell} (hc : e.workbook.cell? p = some c) (htext : c.formulaText? = some text)
include hc htext

theorem cell?_withTextRead (q : Position) : (e.withTextRead p text).workbook.cell? q =
    (e.workbook.cell? q).map fun c => if q = p then c.readAs e.readFormula else c := by
  refine (Workbook.cell?_modifyCell _ _ _ _).trans ?_
  split
  · next hq =>
    rw [hq, hc, Option.map_some, Option.map_some]
    unfold Cell.readAs
    rw [htext]
  · exact (congrFun Option.map_id_fun' _).symm

theorem not_isUnread_withTextRead : ¬(e.withTextRead p text).IsUnread p := by
  rintro ⟨d, f, hd, hf, hparsed⟩
  rw [cell?_withTextRead hc htext, hc, Option.map_some, if_pos rfl] at hd
  obtain ⟨content, value, flags⟩ := c
  cases content with
  | constant v => cases htext
  | formula f' =>
    cases hd
    cases hf
    cases hparsed

/-- Reading a formula from its text and linking it. -/
theorem readFrom_relink_withTextRead : ReadFrom [p] e ((e.withTextRead p text).relink p) := by
  have hup := upToLinks_relink (e.withTextRead p text) p
  have hcell := cell?_withTextRead hc htext
  constructor
  case rest_eq => exact hup.rest_eq
  case frame => exact hup.frame.trans sameFrame_withTextRead
  case wellFormed => exact fun hw => hup.wellFormed (hw.modifySheet _ _)
  case symmetric => exact fun h => isSymmetric_relink (e := e.withTextRead p text) h p
  case linked =>
    intro hlinked
    refine linked_relinkAll [p] fun q => ?_
    by_cases hq : q = p
    · subst hq
      exact Or.inr ⟨List.mem_singleton.mpr rfl, not_isUnread_withTextRead hc htext⟩
    · exact Or.inl (linkedAt_withTextRead hq (hlinked q))
  case cell_eq =>
    intro q
    rw [hup.unlinked_eq, hcell, Option.map_map]
    congr 1
    funext d
    show (if q = p then d.readAs e.readFormula else d).unlinked = _
    simp only [List.mem_singleton]
    split
    · exact Cell.unlinked_readAs _ d
    · rfl
  case other_eq =>
    intro q hq
    rw [List.mem_singleton] at hq
    rw [(link_relink_of_ne _ hq).2, hcell]
    simp [hq]

end TextRead

/-- Reading one loaded formula. -/
theorem readFrom_readLoaded (e : Engine) (p : Position) : ReadFrom [p] e (e.readLoaded p) := by
  unfold readLoaded
  cases hc : e.workbook.cell? p with
  | none =>
    refine readFrom_of_upToLinks (upToLinks_relink e p) (fun h => isSymmetric_relink h p)
      (fun hlinked => linked_relinkAll [p] fun q => Or.inl (hlinked q)) (fun q hq c hcq => ?_) fun q hq =>
      (link_relink_of_ne e fun heq => hq (List.mem_singleton.mpr heq)).2
    rw [List.mem_singleton.mp hq, hc] at hcq
    cases hcq
  | some c =>
    dsimp only
    cases htext : c.formulaText? with
    | none =>
      refine readFrom_of_upToLinks (UpToLinks.refl e) (fun h => h) (fun h => h) (fun q hq d hd => ?_)
        fun _ _ => rfl
      rw [List.mem_singleton.mp hq, hc] at hd
      cases hd
      rw [← Cell.unlinked_readAs]
      unfold Cell.readAs
      rw [htext]
    | some text => exact readFrom_relink_withTextRead hc htext

theorem ReadFrom.readFormula_eq {ps : List Position} {e e' : Engine} (h : ReadFrom ps e e') :
    e'.readFormula = e.readFormula := by
  apply readFormula_congr
  rw [h.rest_eq]

theorem ReadFrom.trans {ps qs : List Position} {e e' e'' : Engine} (h : ReadFrom ps e e')
    (h' : ReadFrom qs e' e'') : ReadFrom (ps ++ qs) e e'' := by
  refine ⟨?_, h'.frame.trans h.frame, fun hw => h'.wellFormed (h.wellFormed hw),
    fun hs => h'.symmetric (h.symmetric hs), fun hl => h'.linked (h.linked hl), fun q => ?_, fun q hq => ?_⟩
  · have hrest := h'.rest_eq
    rw [h.rest_eq] at hrest
    exact hrest
  · have hmap : (e''.workbook.cell? q).map Cell.unlinked =
        ((e'.workbook.cell? q).map Cell.unlinked).map
          fun c => if q ∈ qs then c.readAs e.readFormula else c := by
      rw [h'.cell_eq, h.readFormula_eq, Option.map_map]
      rfl
    rw [hmap, h.cell_eq, Option.map_map]
    congr 1
    funext c
    simp only [Function.comp_apply, List.mem_append]
    by_cases hp : q ∈ ps <;> by_cases hq : q ∈ qs <;> simp [hp, hq, Cell.readAs_readAs]
  · rw [List.mem_append, not_or] at hq
    rw [h'.other_eq q hq.2, h.other_eq q hq.1]

/-- Reading several loaded formulas, one after the other. -/
theorem readFrom_foldl (e : Engine) (ps : List Position) : ReadFrom ps e (ps.foldl readLoaded e) := by
  induction ps generalizing e with
  | nil =>
    exact readFrom_of_upToLinks (UpToLinks.refl e) (fun h => h) (fun h => h)
      (fun q hq => absurd hq List.not_mem_nil) fun _ _ => rfl
  | cons p ps ih => exact (readFrom_readLoaded e p).trans (ih (e.readLoaded p))

section ReadFrom

variable {ps : List Position} {e e' : Engine}

/-- Every cell comes from one that was there before. -/
theorem ReadFrom.cell? (h : ReadFrom ps e e') {q : Position} {c' : Cell}
    (hc' : e'.workbook.cell? q = some c') : ∃ c, e.workbook.cell? q = some c ∧
      ((q ∈ ps ∧ c'.unlinked = (c.readAs e.readFormula).unlinked) ∨ (q ∉ ps ∧ c'.unlinked = c.unlinked)) := by
  have heq := h.cell_eq q
  rw [hc'] at heq
  obtain ⟨c, hc, hcc⟩ := Option.map_eq_some_iff.mp heq.symm
  refine ⟨c, hc, ?_⟩
  split at hcc
  · next hq => exact Or.inl ⟨hq, by rw [Cell.unlinked_readAs, hcc]⟩
  · next hq => exact Or.inr ⟨hq, hcc.symm⟩

theorem ReadFrom.isSome_cell? (h : ReadFrom ps e e') (q : Position) :
    (e'.workbook.cell? q).isSome = (e.workbook.cell? q).isSome := by
  have heq := congrArg Option.isSome (h.cell_eq q)
  rwa [Option.isSome_map, Option.isSome_map] at heq

/-- Reading formulas changes no value. -/
theorem ReadFrom.value_eq (h : ReadFrom ps e e') (q : Position) :
    e'.workbook.value q = e.workbook.value q := by
  have hcell := congrArg (Option.map Cell.value) (h.cell_eq q)
  rw [Option.map_map, Option.map_map] at hcell
  rw [Workbook.value_eq, Workbook.value_eq]
  refine congrArg (Option.getD · .empty) ((Eq.trans ?_ hcell).trans ?_)
  · exact congrFun (congrArg Option.map (funext fun c => c.value_unlinked.symm)) _
  · refine congrFun (congrArg Option.map (funext fun c => ?_)) _
    show (if _ then _ else _ : Cell).value = c.value
    split
    · rw [Cell.value_readAs, Cell.value_unlinked]
    · exact c.value_unlinked

/-- What was not read is what it was. -/
theorem ReadFrom.core?_eq (h : ReadFrom ps e e') {q : Position} (hq : q ∉ ps) :
    e'.workbook.core? q = e.workbook.core? q :=
  Workbook.core?_eq_of_cell (h.other_eq q hq)

theorem ReadFrom.scope_eq (h : ReadFrom ps e e') : e'.scope = e.scope := by
  have hrest := h.rest_eq
  have hscope := h.frame.scope_eq e.names e.settings
  rw [hrest] at hscope ⊢
  exact hscope

theorem ReadFrom.linkAt_eq (h : ReadFrom ps e e') {q : Position} (hq : q ∉ ps) :
    e'.linkAt q = e.linkAt q := by
  unfold linkAt
  rw [Workbook.tree?_congr (h.core?_eq hq), h.scope_eq]

/-- A cell is dirty as it was, and in order. -/
theorem ReadFrom.marks (h : ReadFrom ps e e') (he : e.Orderly) {p : Position} {c' : Cell}
    (hc' : e'.workbook.cell? p = some c') : ∃ c, e.workbook.cell? p = some c ∧
      c'.flags.dirty = c.flags.dirty ∧ c'.IsOrderly e.readFormula := by
  obtain ⟨c, hc, ⟨-, heq⟩ | ⟨-, heq⟩⟩ := h.cell? hc'
  · refine ⟨c, hc, ?_, ((he.cells p c hc).readAs).of_unlinked heq⟩
    rw [← Cell.dirty_readAs e.readFormula c, ← Cell.flags_unlinked c', heq, Cell.flags_unlinked]
  · refine ⟨c, hc, ?_, (he.cells p c hc).of_unlinked heq⟩
    rw [← Cell.flags_unlinked c', heq, Cell.flags_unlinked]

theorem ReadFrom.orderly (h : ReadFrom ps e e') (he : e.Orderly) : e'.Orderly := by
  have hdirty : e'.dirty = e.dirty := by rw [h.rest_eq]
  have hunread : e'.unread = e.unread := by rw [h.rest_eq]
  refine he.of_sameFrame (by rw [h.rest_eq]) (by rw [h.rest_eq]) h.frame (h.wellFormed he.wellFormed)
    (h.symmetric he.symmetric) ?cells ?stored ?unread ?marked
  case cells =>
    intro p c' hc'
    obtain ⟨c, -, -, hc⟩ := h.marks he hc'
    exact hc
  case stored =>
    intro p hp
    rw [hdirty] at hp
    rw [h.isSome_cell?]
    exact he.stored p hp
  case unread =>
    rw [hunread, hdirty]
    exact he.unread
  case marked =>
    intro hroomy p c' hc' hp
    rw [hdirty] at hp
    obtain ⟨c, hc, hsame, -⟩ := h.marks he hc'
    rw [hsame]
    exact he.marked hroomy p c hc hp

end ReadFrom

/-! ### Reading all of them -/

theorem Change.refl (e : Engine) : Change some e e := by
  have halike : ∀ p, p ∉ e.dirty → Alike e p e p := fun p hp =>
    (untouched_of_scope rfl rfl rfl rfl Iff.rfl Iff.rfl).alike hp
  exact ⟨rfl, rfl, fun p _ hp => ⟨p, rfl, halike p hp⟩, fun _ q _ _ hq => ⟨rfl, halike q hq⟩,
    fun _ _ _ _ _ _ => rfl⟩

/-- **Reading the loaded formulas is an edit** whose seeds they are. -/
theorem edit_readAllLoaded {e : Engine} (h : e.Consistent) :
    Edit some e (e.unread.toList.foldl readLoaded { e with unread := {} }) [] e.unread.toList := by
  let e₀ : Engine := { e with unread := {} }
  have he₀ : e₀.Orderly :=
    { h.toOrderly with
      unread := fun p hp => absurd hp Std.TreeSet.not_mem_emptyc }
  have hlinked₀ : ∀ q, e₀.LinkedAt q := fun q => ⟨(h.linked q).link_eq, (h.linked q).kind_eq⟩
  have hread : ReadFrom e.unread.toList e₀ (e.unread.toList.foldl readLoaded e₀) := readFrom_foldl _ _
  show Edit some e (e.unread.toList.foldl readLoaded e₀) [] e.unread.toList
  generalize e.unread.toList.foldl readLoaded e₀ = e₁ at hread
  have hlinked := hread.linked hlinked₀
  have hdirty : e₁.dirty = e.dirty := by rw [hread.rest_eq]
  have hunread : e₁.unread = {} := by rw [hread.rest_eq]
  refine Edit.inPlace (fun p => p ∈ e.unread.toList) h (by rw [hread.rest_eq])
    (by rw [hread.rest_eq]) (hread.orderly he₀) ?_ (fun p _ => Or.inl (hlinked p)) (fun p hp => Or.inl hp)
    ?_ ?_
  · intro p c' hc' hflag
    obtain ⟨c, hc, hsame, -⟩ := hread.marks he₀ hc'
    left
    rw [hdirty]
    exact h.flagged p c hc (hsame ▸ hflag)
  · intro p hp
    have hat : e₁.linkAt p = e.linkAt p := hread.linkAt_eq hp
    refine untouched_of_scope hread.scope_eq (hread.core?_eq hp)
      (Workbook.content?_eq_of_cell (hread.other_eq p hp)) ?_ (by rw [hdirty]) ?_
    · rw [(hlinked p).link_eq, hat, (h.linked p).link_eq]
    · rw [hunread]
      rw [Std.TreeSet.mem_toList] at hp
      exact iff_of_false Std.TreeSet.not_mem_emptyc hp
  · intro _ _ q _ _
    rw [hread.frame.isObscured_eq]

theorem Faithful.refl {E : ErrorValue.Likeness} (e : Engine) : Faithful E some e e where
  toChange := Change.refl e
  content := by
    intro p _ hp
    exact ⟨p, rfl, (untouched_of_scope rfl rfl rfl rfl Iff.rfl Iff.rfl).alike hp, Workbook.rel_content? _ p⟩
  labels := fun _ _ _ _ _ _ hab => E.propagated _ _ _ hab

/-- An engine without unread formulas is what reading them leaves. -/
theorem readAllLoaded_eq_self {e : Engine} (h : ∀ p, p ∉ e.unread) : e.readAllLoaded = e := by
  unfold readAllLoaded
  dsimp only
  rw [if_pos]
  rw [List.isEmpty_iff, List.eq_nil_iff_forall_not_mem]
  exact fun p hp => h p (Std.TreeSet.mem_toList.mp hp)

/-- Reading the loaded formulas is faithful. -/
theorem faithful_readAllLoaded {E : ErrorValue.Likeness} {e : Engine} (h : e.Consistent) :
    Faithful E some e e.readAllLoaded := by
  have hread := readFrom_foldl { e with unread := {} } e.unread.toList
  unfold readAllLoaded
  dsimp only
  split
  · exact Faithful.refl e
  · refine (edit_readAllLoaded h).faithful (fun _ hp => absurd hp List.not_mem_nil) fun id _ _ => ?_
    rw [hread.frame.sheetName_eq]

/-- What reading all loaded formulas comes to. -/
theorem readAllLoaded_spec {e : Engine} (h : e.Consistent) :
    e.readAllLoaded.Consistent ∧ Change some e e.readAllLoaded ∧ ∀ p, p ∉ e.readAllLoaded.unread := by
  have hedit := edit_readAllLoaded h
  unfold readAllLoaded
  dsimp only
  split
  · next hempty =>
    refine ⟨h, Change.refl e, fun p hp => ?_⟩
    have hmem := Std.TreeSet.mem_toList.mpr hp
    rw [List.isEmpty_iff.mp hempty] at hmem
    exact List.not_mem_nil hmem
  · refine ⟨hedit.consistent, hedit.change, fun p hp => ?_⟩
    have hunread : ((e.unread.toList.foldl readLoaded { e with unread := {} }).markDirty
        e.unread.toList).unread = {} := by
      refine hedit.unread_eq.trans ?_
      rw [(readFrom_foldl _ _).rest_eq]
    rw [hunread] at hp
    exact Std.TreeSet.not_mem_emptyc hp

end Engine

end Spreadsheet
