import Spreadsheet.Proofs.Resolving

/-!
# Edges: what the graph records of each formula

The graph keeps every edge twice. `DependencyGraph.link` collects what it records under the reader, and
`IsSymmetric` says that the readers found under a cell, a sheet or a name are those whose record has it.
Only two operations change the records, and each is described by them:

* `link_clear`, `link_rebuild` — the record of one formula is emptied or made anew, every other record
  is as it was;
* `IsSymmetric.clear`, `IsSymmetric.rebuild` — both directions stay in step.

From symmetry every question to the graph has its answer in terms of the records: `mem_readersOf`,
`mem_readersOfRect`, `mem_readersOfSheet`, `mem_readersOfName`, `mem_allReaders`.
-/

namespace Spreadsheet

open Grid

/-- What the graph records of one formula: the areas it reads, the names it looks up, and whether one of
its references means nothing. -/
@[ext]
structure Link where
  areas : List Area := []
  names : List String := []
  unresolved : Bool := false

namespace DependencyGraph

/-- The names that the formula of a cell looks up, in lower case. -/
def namesReadBy (g : DependencyGraph) (reader : Position) : List String :=
  (g.namesRead.get? reader).getD []

/-- What is recorded of the formula of a cell. -/
def link (g : DependencyGraph) (reader : Position) : Link :=
  ⟨g.precedentsOf reader, g.namesReadBy reader, g.unresolved.contains reader⟩

theorem mem_unresolved_iff_link (g : DependencyGraph) (p : Position) :
    p ∈ g.unresolved.toList ↔ (g.link p).unresolved = true := by
  rw [Std.TreeSet.mem_toList]
  exact Iff.rfl

/-- A formula reads a cell: one of its areas has the cell. -/
def Reads (g : DependencyGraph) (reader p : Position) : Prop :=
  ∃ a ∈ g.precedentsOf reader, a.covers p = true

/-- The readers under each key are those whose record has the key. -/
structure IsSymmetric (g : DependencyGraph) : Prop where
  point : ∀ p reader, reader ∈ readersUnder g.pointReaders p ↔ Area.point p ∈ g.precedentsOf reader
  range : ∀ sheet rect reader,
    (rect, reader) ∈ g.rangesOn sheet ↔ Area.range sheet rect ∈ g.precedentsOf reader
  name : ∀ key reader, reader ∈ readersUnder g.nameReaders key ↔ key ∈ g.namesReadBy reader

theorem isSymmetric_empty : ({} : DependencyGraph).IsSymmetric := by
  constructor <;> intros <;>
    simp [readersUnder, precedentsOf, rangesOn, namesReadBy, Std.TreeMap.get?_eq_getElem?]

theorem link_empty (p : Position) : ({} : DependencyGraph).link p = {} := by
  simp [link, precedentsOf, namesReadBy, Std.TreeMap.get?_eq_getElem?]

/-! ### Sets under a key -/

section Readers

variable {κ : Type} [Ord κ] [Std.TransOrd κ] [Std.LawfulEqOrd κ]

theorem mem_readersUnder_addReader (m : Std.TreeMap κ PositionSet) (key key' : κ) (p reader : Position) :
    reader ∈ readersUnder (addReader m key p) key' ↔
      reader ∈ readersUnder m key' ∨ (key' = key ∧ reader = p) := by
  unfold readersUnder addReader
  rw [Std.TreeMap.get?_eq_getElem?, Std.TreeMap.get?_eq_getElem?, Std.TreeMap.getElem?_alter]
  by_cases hk : key = key'
  · subst hk
    rw [if_pos Std.compare_self, Option.getD_some, mem_insert_iff, or_comm]
    simp
  · rw [if_neg (fun h => hk (Std.compare_eq_iff_eq.mp h))]
    simp [Ne.symm hk]

theorem mem_readersUnder_removeReader (m : Std.TreeMap κ PositionSet) (key key' : κ)
    (p reader : Position) :
    reader ∈ readersUnder (removeReader m key p) key' ↔
      reader ∈ readersUnder m key' ∧ ¬(key' = key ∧ reader = p) := by
  unfold readersUnder removeReader
  rw [Std.TreeMap.get?_eq_getElem?, Std.TreeMap.get?_eq_getElem?, Std.TreeMap.getElem?_alter]
  by_cases hk : key = key'
  · subst hk
    rw [if_pos Std.compare_self]
    cases hm : m[key]? with
    | none => simp
    | some s =>
      have herase : reader ∈ s.erase p ↔ reader ∈ s ∧ ¬(reader = p) := by
        rw [mem_erase_iff, and_comm]
      dsimp only
      split
      · next hempty =>
        have hnot : reader ∉ s.erase p := Std.TreeSet.not_mem_of_isEmpty hempty
        simp only [Option.getD_none, Option.getD_some, true_and]
        rw [← herase]
        simp [hnot]
      · simp only [Option.getD_some, true_and]
        exact herase
  · rw [if_neg (fun h => hk (Std.compare_eq_iff_eq.mp h))]
    simp [Ne.symm hk]

end Readers

/-! ### Forgetting a formula -/

theorem mem_readersUnder_foldl_removeReader (names : List String) (m : Std.TreeMap String PositionSet)
    (key : String) (p reader : Position) :
    reader ∈ readersUnder (names.foldl (fun m name => removeReader m name p) m) key ↔
      reader ∈ readersUnder m key ∧ ¬(key ∈ names ∧ reader = p) := by
  induction names generalizing m with
  | nil => simp
  | cons name names ih =>
    rw [List.foldl_cons, ih, mem_readersUnder_removeReader, List.mem_cons]
    tauto

/-- The graph without the edges of one formula to some areas. -/
def removeEdges (g : DependencyGraph) (reader : Position) (areas : List Area) : DependencyGraph :=
  areas.foldl (fun g area => g.removeEdge reader area) g

theorem mem_pointReaders_removeEdge (g : DependencyGraph) (p reader q : Position) (a : Area) :
    reader ∈ readersUnder (g.removeEdge p a).pointReaders q ↔
      reader ∈ readersUnder g.pointReaders q ∧ ¬(a = .point q ∧ reader = p) := by
  cases a with
  | point q' =>
    show reader ∈ readersUnder (removeReader g.pointReaders q' p) q ↔ _
    rw [mem_readersUnder_removeReader]
    simp [eq_comm]
  | range sheet rect =>
    show reader ∈ readersUnder g.pointReaders q ↔ _
    simp

theorem mem_rangesOn_removeEdge (g : DependencyGraph) (p : Position) (sheet : SheetId)
    (edge : Rect × Position) (a : Area) :
    edge ∈ (g.removeEdge p a).rangesOn sheet ↔
      edge ∈ g.rangesOn sheet ∧ ¬(a = .range sheet edge.1 ∧ edge.2 = p) := by
  cases a with
  | point q =>
    show edge ∈ g.rangesOn sheet ↔ _
    simp
  | range sheet' rect =>
    unfold removeEdge rangesOn
    dsimp only
    rw [Std.TreeMap.get?_eq_getElem?, Std.TreeMap.get?_eq_getElem?, Std.TreeMap.getElem?_alter]
    simp only [Std.compare_eq_iff_eq]
    by_cases hs : sheet' = sheet
    · subst hs
      rw [if_pos rfl]
      have hfilter : edge ∈ (g.rangeReaders[sheet']?.getD []).filter
          (fun edge => !(edge.2 == p && edge.1 == rect)) ↔
          edge ∈ g.rangeReaders[sheet']?.getD [] ∧
            ¬(Area.range sheet' rect = .range sheet' edge.1 ∧ edge.2 = p) := by
        rw [List.mem_filter]
        simp only [Bool.not_eq_true', Bool.and_eq_false_iff, beq_eq_false_iff_ne, Area.range.injEq,
          true_and]
        constructor
        · rintro ⟨hmem, hne⟩
          exact ⟨hmem, fun heq => hne.elim (fun h => h heq.2) (fun h => h heq.1.symm)⟩
        · rintro ⟨hmem, hne⟩
          refine ⟨hmem, ?_⟩
          by_cases hp : edge.2 = p
          · exact Or.inr fun h => hne ⟨h.symm, hp⟩
          · exact Or.inl hp
      rw [← hfilter]
      split
      · next hnil =>
        rw [hnil]
        simp
      · simp
    · rw [if_neg hs]
      simp [hs]

theorem mem_pointReaders_removeEdges (g : DependencyGraph) (p reader q : Position) (areas : List Area) :
    reader ∈ readersUnder (g.removeEdges p areas).pointReaders q ↔
      reader ∈ readersUnder g.pointReaders q ∧ ¬(.point q ∈ areas ∧ reader = p) := by
  unfold removeEdges
  induction areas generalizing g with
  | nil => simp
  | cons a areas ih =>
    rw [List.foldl_cons, ih, mem_pointReaders_removeEdge, List.mem_cons, eq_comm (b := a)]
    tauto

theorem mem_rangesOn_removeEdges (g : DependencyGraph) (p : Position) (sheet : SheetId)
    (edge : Rect × Position) (areas : List Area) :
    edge ∈ (g.removeEdges p areas).rangesOn sheet ↔
      edge ∈ g.rangesOn sheet ∧ ¬(.range sheet edge.1 ∈ areas ∧ edge.2 = p) := by
  unfold removeEdges
  induction areas generalizing g with
  | nil => simp
  | cons a areas ih =>
    rw [List.foldl_cons, ih, mem_rangesOn_removeEdge, List.mem_cons, eq_comm (b := a)]
    tauto

theorem rest_removeEdges (g : DependencyGraph) (p : Position) (areas : List Area) :
    (g.removeEdges p areas).reads = g.reads ∧ (g.removeEdges p areas).nameReaders = g.nameReaders ∧
      (g.removeEdges p areas).namesRead = g.namesRead ∧
      (g.removeEdges p areas).unresolved = g.unresolved := by
  unfold removeEdges
  induction areas generalizing g with
  | nil => exact ⟨rfl, rfl, rfl, rfl⟩
  | cons a areas ih =>
    obtain ⟨h₁, h₂, h₃, h₄⟩ := ih (g.removeEdge p a)
    rw [List.foldl_cons, h₁, h₂, h₃, h₄]
    cases a <;> exact ⟨rfl, rfl, rfl, rfl⟩

theorem clear_eq (g : DependencyGraph) (p : Position) :
    g.clear p = { g.removeEdges p (g.precedentsOf p) with
      reads := g.reads.erase p
      nameReaders := (g.namesReadBy p).foldl (fun m name => removeReader m name p) g.nameReaders
      namesRead := g.namesRead.erase p
      unresolved := g.unresolved.erase p } := by
  obtain ⟨h₁, h₂, h₃, h₄⟩ := rest_removeEdges g p (g.precedentsOf p)
  unfold clear
  dsimp only
  congr 1
  · show (g.removeEdges p (g.precedentsOf p)).reads.erase p = _
    rw [h₁]
  · show (g.namesReadBy p).foldl _ (g.removeEdges p (g.precedentsOf p)).nameReaders = _
    rw [h₂]
  · show (g.removeEdges p (g.precedentsOf p)).namesRead.erase p = _
    rw [h₃]
  · show (g.removeEdges p (g.precedentsOf p)).unresolved.erase p = _
    rw [h₄]

theorem precedentsOf_clear (g : DependencyGraph) (p q : Position) :
    (g.clear p).precedentsOf q = if q = p then [] else g.precedentsOf q := by
  rw [clear_eq]
  unfold precedentsOf
  dsimp only
  rw [Std.TreeMap.get?_eq_getElem?, Std.TreeMap.get?_eq_getElem?, Std.TreeMap.getElem?_erase]
  simp only [Std.compare_eq_iff_eq, eq_comm (a := p)]
  split <;> rfl

theorem namesReadBy_clear (g : DependencyGraph) (p q : Position) :
    (g.clear p).namesReadBy q = if q = p then [] else g.namesReadBy q := by
  rw [clear_eq]
  unfold namesReadBy
  dsimp only
  rw [Std.TreeMap.get?_eq_getElem?, Std.TreeMap.get?_eq_getElem?, Std.TreeMap.getElem?_erase]
  simp only [Std.compare_eq_iff_eq, eq_comm (a := p)]
  split <;> rfl

theorem contains_unresolved_clear (g : DependencyGraph) (p q : Position) :
    (g.clear p).unresolved.contains q = if q = p then false else g.unresolved.contains q := by
  rw [clear_eq]
  dsimp only
  rw [Std.TreeSet.contains_erase]
  by_cases hq : q = p
  · subst hq
    simp
  · have hne : compare p q ≠ .eq := fun h => hq (Std.compare_eq_iff_eq.mp h).symm
    simp [hq, hne]

/-- Forgetting a formula empties its record and no other. -/
theorem link_clear (g : DependencyGraph) (p q : Position) :
    (g.clear p).link q = if q = p then {} else g.link q := by
  unfold link
  rw [precedentsOf_clear, namesReadBy_clear, contains_unresolved_clear]
  split <;> rfl

theorem IsSymmetric.clear {g : DependencyGraph} (hg : g.IsSymmetric) (p : Position) :
    (g.clear p).IsSymmetric := by
  constructor
  · intro q reader
    rw [precedentsOf_clear, clear_eq]
    dsimp only
    rw [mem_pointReaders_removeEdges, hg.point]
    split
    · next h =>
      subst h
      simp
    · next h => simp [h]
  · intro sheet rect reader
    rw [precedentsOf_clear, clear_eq]
    show (rect, reader) ∈ (g.removeEdges p (g.precedentsOf p)).rangesOn sheet ↔ _
    rw [mem_rangesOn_removeEdges, hg.range]
    split
    · next h =>
      subst h
      simp
    · next h => simp [h]
  · intro key reader
    rw [namesReadBy_clear, clear_eq]
    dsimp only
    rw [mem_readersUnder_foldl_removeReader, hg.name]
    split
    · next h =>
      subst h
      simp
    · next h => simp [h]

/-! ### Recording a formula -/

/-- The names that a formula looks up, in lower case and each once. -/
def lookedUp (x : Expr) : List String :=
  (namesOf x.references).foldl
    (fun keys name => if Text.lower name ∈ keys then keys else keys ++ [Text.lower name]) []

/-- What is to be recorded of a formula on a sheet, given what references mean. -/
def linkOf (scope : Scope) (sheet : SheetId) (x : Expr) : Link where
  areas := (resolveAll scope sheet x.references).toOption.getD []
  names := lookedUp x
  unresolved := (resolveAll scope sheet x.references).toOption.isNone

theorem mem_lookedUp (x : Expr) (key : String) :
    key ∈ lookedUp x ↔ ∃ name ∈ namesOf x.references, key = Text.lower name := by
  unfold lookedUp
  rw [holds_foldl_iff (fun keys => key ∈ keys) (fun name => key = Text.lower name)]
  · simp
  · intro keys name
    split
    · next h =>
      constructor
      · exact Or.inl
      · rintro (hkey | rfl)
        · exact hkey
        · exact h
    · simp

/-- The graph with a formula recorded under the names it looks up. -/
def addNames (g : DependencyGraph) (reader : Position) (names : List String) : DependencyGraph :=
  names.foldl (fun g name => g.addName reader name) g

theorem rest_addNames (g : DependencyGraph) (p : Position) (names : List String) :
    (g.addNames p names).reads = g.reads ∧ (g.addNames p names).pointReaders = g.pointReaders ∧
      (g.addNames p names).rangeReaders = g.rangeReaders ∧
      (g.addNames p names).unresolved = g.unresolved := by
  unfold addNames
  induction names generalizing g with
  | nil => exact ⟨rfl, rfl, rfl, rfl⟩
  | cons name names ih => exact ih (g.addName p name)

theorem mem_nameReaders_addNames (g : DependencyGraph) (p reader : Position) (key : String)
    (names : List String) :
    reader ∈ readersUnder (g.addNames p names).nameReaders key ↔
      reader ∈ readersUnder g.nameReaders key ∨ ((∃ name ∈ names, key = Text.lower name) ∧ reader = p) := by
  have h := holds_foldl_iff (fun g : DependencyGraph => reader ∈ readersUnder g.nameReaders key)
    (fun name => key = Text.lower name ∧ reader = p) (fun g name => g.addName p name)
    (fun g name => mem_readersUnder_addReader g.nameReaders (Text.lower name) key p reader) names g
  unfold addNames
  rw [h]
  simp only [← and_assoc, exists_and_right]

theorem namesReadBy_addName (g : DependencyGraph) (p q : Position) (name : String) :
    (g.addName p name).namesReadBy q =
      if q = p then
        if Text.lower name ∈ g.namesReadBy p then g.namesReadBy p
        else g.namesReadBy p ++ [Text.lower name]
      else g.namesReadBy q := by
  unfold addName namesReadBy
  dsimp only
  rw [Std.TreeMap.get?_eq_getElem?, Std.TreeMap.get?_eq_getElem?, Std.TreeMap.get?_eq_getElem?,
    Std.TreeMap.getElem?_alter]
  simp only [Std.compare_eq_iff_eq, eq_comm (a := p)]
  split <;> rfl

theorem namesReadBy_addNames (g : DependencyGraph) (p q : Position) (names : List String) :
    (g.addNames p names).namesReadBy q =
      if q = p then
        names.foldl
          (fun keys name => if Text.lower name ∈ keys then keys else keys ++ [Text.lower name])
          (g.namesReadBy p)
      else g.namesReadBy q := by
  unfold addNames
  induction names generalizing g with
  | nil =>
    split
    · next h => rw [h]; rfl
    · rfl
  | cons name names ih =>
    rw [List.foldl_cons, ih, namesReadBy_addName, namesReadBy_addName, if_pos rfl]
    split <;> rfl

/-- The graph with the edges of a formula to some areas. -/
def addEdges (g : DependencyGraph) (reader : Position) (areas : List Area) : DependencyGraph :=
  areas.foldl (fun g area => g.addEdge reader area) g

theorem rest_addEdges (g : DependencyGraph) (p : Position) (areas : List Area) :
    (g.addEdges p areas).reads = g.reads ∧ (g.addEdges p areas).nameReaders = g.nameReaders ∧
      (g.addEdges p areas).namesRead = g.namesRead ∧
      (g.addEdges p areas).unresolved = g.unresolved := by
  unfold addEdges
  induction areas generalizing g with
  | nil => exact ⟨rfl, rfl, rfl, rfl⟩
  | cons a areas ih =>
    obtain ⟨h₁, h₂, h₃, h₄⟩ := ih (g.addEdge p a)
    rw [List.foldl_cons, h₁, h₂, h₃, h₄]
    cases a <;> exact ⟨rfl, rfl, rfl, rfl⟩

theorem mem_pointReaders_addEdge (g : DependencyGraph) (p reader q : Position) (a : Area) :
    reader ∈ readersUnder (g.addEdge p a).pointReaders q ↔
      reader ∈ readersUnder g.pointReaders q ∨ (a = .point q ∧ reader = p) := by
  cases a with
  | point q' =>
    show reader ∈ readersUnder (addReader g.pointReaders q' p) q ↔ _
    rw [mem_readersUnder_addReader]
    simp [eq_comm]
  | range sheet rect =>
    show reader ∈ readersUnder g.pointReaders q ↔ _
    simp

theorem mem_rangesOn_addEdge (g : DependencyGraph) (p : Position) (sheet : SheetId)
    (edge : Rect × Position) (a : Area) :
    edge ∈ (g.addEdge p a).rangesOn sheet ↔
      edge ∈ g.rangesOn sheet ∨ (a = .range sheet edge.1 ∧ edge.2 = p) := by
  cases a with
  | point q =>
    show edge ∈ g.rangesOn sheet ↔ _
    simp
  | range sheet' rect =>
    unfold addEdge rangesOn
    dsimp only
    rw [Std.TreeMap.get?_eq_getElem?, Std.TreeMap.get?_eq_getElem?, Std.TreeMap.getElem?_alter]
    simp only [Std.compare_eq_iff_eq]
    by_cases hs : sheet' = sheet
    · subst hs
      rw [if_pos rfl, Option.getD_some, List.mem_append, List.mem_singleton, Prod.ext_iff]
      simp [eq_comm]
    · rw [if_neg hs]
      simp [hs]

theorem mem_pointReaders_addEdges (g : DependencyGraph) (p reader q : Position) (areas : List Area) :
    reader ∈ readersUnder (g.addEdges p areas).pointReaders q ↔
      reader ∈ readersUnder g.pointReaders q ∨ (.point q ∈ areas ∧ reader = p) := by
  have h := holds_foldl_iff (fun g : DependencyGraph => reader ∈ readersUnder g.pointReaders q)
    (fun a => a = .point q ∧ reader = p) (fun g a => g.addEdge p a)
    (fun g a => mem_pointReaders_addEdge g p reader q a) areas g
  unfold addEdges
  rw [h]
  constructor
  · rintro (hold | ⟨a, ha, rfl, rfl⟩)
    · exact Or.inl hold
    · exact Or.inr ⟨ha, rfl⟩
  · rintro (hold | ⟨ha, rfl⟩)
    · exact Or.inl hold
    · exact Or.inr ⟨_, ha, rfl, rfl⟩

theorem mem_rangesOn_addEdges (g : DependencyGraph) (p : Position) (sheet : SheetId)
    (edge : Rect × Position) (areas : List Area) :
    edge ∈ (g.addEdges p areas).rangesOn sheet ↔
      edge ∈ g.rangesOn sheet ∨ (.range sheet edge.1 ∈ areas ∧ edge.2 = p) := by
  have h := holds_foldl_iff (fun g : DependencyGraph => edge ∈ g.rangesOn sheet)
    (fun a => a = .range sheet edge.1 ∧ edge.2 = p) (fun g a => g.addEdge p a)
    (fun g a => mem_rangesOn_addEdge g p sheet edge a) areas g
  unfold addEdges
  rw [h]
  constructor
  · rintro (hold | ⟨a, ha, rfl, hp⟩)
    · exact Or.inl hold
    · exact Or.inr ⟨ha, hp⟩
  · rintro (hold | ⟨ha, hp⟩)
    · exact Or.inl hold
    · exact Or.inr ⟨_, ha, rfl, hp⟩

theorem rebuild_eq (g : DependencyGraph) (p : Position) (x : Expr) (scope : Scope) :
    g.rebuild p x scope =
      match resolveAll scope p.sheet x.references with
      | .error e =>
        ({ (g.clear p).addNames p (namesOf x.references) with
           unresolved := ((g.clear p).addNames p (namesOf x.references)).unresolved.insert p }, some e)
      | .ok areas =>
        let g := ((g.clear p).addNames p (namesOf x.references)).addEdges p areas
        (if areas.isEmpty then g else { g with reads := g.reads.insert p areas }, none) := rfl

/-- A formula is recorded with the error of its references. -/
theorem snd_rebuild (g : DependencyGraph) (p : Position) (x : Expr) (scope : Scope) :
    (g.rebuild p x scope).2 =
      match resolveAll scope p.sheet x.references with
      | .error e => some e
      | .ok _ => none := by
  rw [rebuild_eq]
  cases resolveAll scope p.sheet x.references <;> rfl

theorem link_congr {g g' : DependencyGraph} (hreads : g.reads = g'.reads)
    (hnames : g.namesRead = g'.namesRead) (hunresolved : g.unresolved = g'.unresolved) :
    g.link = g'.link := by
  funext q
  unfold link precedentsOf namesReadBy
  rw [hreads, hnames, hunresolved]

theorem link_insert_reads (g : DependencyGraph) (p q : Position) (areas : List Area) :
    ({ g with reads := g.reads.insert p areas } : DependencyGraph).link q =
      if q = p then ⟨areas, (g.link p).names, (g.link p).unresolved⟩ else g.link q := by
  have hreads : (g.reads.insert p areas).get? q = if q = p then some areas else g.reads.get? q := by
    rw [Std.TreeMap.get?_eq_getElem?, Std.TreeMap.get?_eq_getElem?, Std.TreeMap.getElem?_insert]
    simp only [Std.compare_eq_iff_eq, eq_comm (a := p)]
  unfold link precedentsOf namesReadBy
  dsimp only
  rw [hreads]
  split
  · next h => rw [h]; rfl
  · rfl

theorem link_insert_unresolved (g : DependencyGraph) (p q : Position) :
    ({ g with unresolved := g.unresolved.insert p } : DependencyGraph).link q =
      if q = p then ⟨(g.link p).areas, (g.link p).names, true⟩ else g.link q := by
  have hcontains : (g.unresolved.insert p).contains q =
      if q = p then true else g.unresolved.contains q := by
    rw [Std.TreeSet.contains_insert]
    by_cases h : q = p
    · rw [h]
      simp
    · have hne : compare p q ≠ .eq := fun he => h (Std.compare_eq_iff_eq.mp he).symm
      simp [h, hne]
  unfold link precedentsOf namesReadBy
  dsimp only
  rw [hcontains]
  split
  · next h => rw [h]
  · rfl

theorem link_addNames_clear (g : DependencyGraph) (p q : Position) (x : Expr) :
    ((g.clear p).addNames p (namesOf x.references)).link q =
      if q = p then ⟨[], lookedUp x, false⟩ else g.link q := by
  obtain ⟨h₁, -, -, h₄⟩ := rest_addNames (g.clear p) p (namesOf x.references)
  have hreads : ((g.clear p).addNames p (namesOf x.references)).precedentsOf q =
      (g.clear p).precedentsOf q := by
    unfold precedentsOf
    rw [h₁]
  unfold link
  rw [hreads, h₄, namesReadBy_addNames, precedentsOf_clear, contains_unresolved_clear,
    namesReadBy_clear, namesReadBy_clear, if_pos rfl]
  split <;> rfl

/-- **Recording a formula makes its record anew and leaves every other record as it was.** -/
theorem link_rebuild (g : DependencyGraph) (p : Position) (x : Expr) (scope : Scope) (q : Position) :
    (g.rebuild p x scope).1.link q = if q = p then linkOf scope p.sheet x else g.link q := by
  rw [rebuild_eq]
  unfold linkOf
  cases hr : resolveAll scope p.sheet x.references with
  | error e =>
    dsimp only
    rw [link_insert_unresolved, link_addNames_clear, link_addNames_clear, if_pos rfl]
    split <;> rfl
  | ok areas =>
    dsimp only
    obtain ⟨h₁, -, h₃, h₄⟩ :=
      rest_addEdges ((g.clear p).addNames p (namesOf x.references)) p areas
    have hedges := link_congr h₁ h₃ h₄
    cases areas with
    | nil =>
      show ((g.clear p).addNames p (namesOf x.references)).link q = _
      rw [link_addNames_clear]
      rfl
    | cons a areas =>
      show DependencyGraph.link { ((g.clear p).addNames p (namesOf x.references)).addEdges p (a :: areas) with
          reads := _ } q = _
      rw [link_insert_reads, hedges, link_addNames_clear, link_addNames_clear, if_pos rfl]
      split <;> rfl

/-- What is found under a cell, a sheet and a name after a formula was recorded: the readers that were
there without it, and the formula where it belongs. -/
theorem indexes_rebuild (g : DependencyGraph) (p : Position) (x : Expr) (scope : Scope) :
    (∀ q reader, reader ∈ readersUnder (g.rebuild p x scope).1.pointReaders q ↔
      reader ∈ readersUnder (g.clear p).pointReaders q ∨
        (.point q ∈ (resolveAll scope p.sheet x.references).toOption.getD [] ∧ reader = p)) ∧
    (∀ sheet rect reader, (rect, reader) ∈ (g.rebuild p x scope).1.rangesOn sheet ↔
      (rect, reader) ∈ (g.clear p).rangesOn sheet ∨
        (.range sheet rect ∈ (resolveAll scope p.sheet x.references).toOption.getD [] ∧ reader = p)) ∧
    ∀ key reader, reader ∈ readersUnder (g.rebuild p x scope).1.nameReaders key ↔
      reader ∈ readersUnder (g.clear p).nameReaders key ∨ (key ∈ lookedUp x ∧ reader = p) := by
  obtain ⟨-, hpoints, hranges, -⟩ := rest_addNames (g.clear p) p (namesOf x.references)
  have hnames := mem_nameReaders_addNames (g.clear p) p
  simp only [mem_lookedUp]
  rw [rebuild_eq]
  cases hr : resolveAll scope p.sheet x.references with
  | error e =>
    refine ⟨fun q reader => ?_, fun sheet rect reader => ?_, fun key reader => hnames reader key _⟩
    · show reader ∈ readersUnder ((g.clear p).addNames p (namesOf x.references)).pointReaders q ↔ _
      rw [hpoints]
      simp [Except.toOption]
    · show (rect, reader) ∈ ((g.clear p).addNames p (namesOf x.references)).rangesOn sheet ↔ _
      unfold rangesOn
      rw [hranges]
      simp [Except.toOption]
  | ok areas =>
    obtain ⟨-, hreaders, -, -⟩ :=
      rest_addEdges ((g.clear p).addNames p (namesOf x.references)) p areas
    -- Whether any area is kept under the reader makes no difference to the indexes.
    have hsame : ∀ g' : DependencyGraph, ∀ reads,
        (if areas.isEmpty then g' else { g' with reads := reads }).pointReaders = g'.pointReaders ∧
        (if areas.isEmpty then g' else { g' with reads := reads }).rangesOn = g'.rangesOn ∧
        (if areas.isEmpty then g' else { g' with reads := reads }).nameReaders = g'.nameReaders := by
      intro g' reads
      split <;> exact ⟨rfl, rfl, rfl⟩
    dsimp only
    refine ⟨fun q reader => ?_, fun sheet rect reader => ?_, fun key reader => ?_⟩
    · rw [(hsame _ _).1, mem_pointReaders_addEdges, hpoints]
      rfl
    · rw [(hsame _ _).2.1, mem_rangesOn_addEdges]
      unfold rangesOn
      rw [hranges]
      rfl
    · rw [(hsame _ _).2.2, hreaders]
      exact hnames reader key _

/-- Both directions stay in step when a formula is recorded. -/
theorem IsSymmetric.rebuild {g : DependencyGraph} (hg : g.IsSymmetric) (p : Position) (x : Expr)
    (scope : Scope) : (g.rebuild p x scope).1.IsSymmetric := by
  have hlink := link_rebuild g p x scope
  have hareas : ∀ q, (g.rebuild p x scope).1.precedentsOf q =
      if q = p then (resolveAll scope p.sheet x.references).toOption.getD [] else g.precedentsOf q := by
    intro q
    have h := congrArg Link.areas (hlink q)
    rw [apply_ite Link.areas] at h
    exact h
  have hnames : ∀ q, (g.rebuild p x scope).1.namesReadBy q =
      if q = p then lookedUp x else g.namesReadBy q := by
    intro q
    have h := congrArg Link.names (hlink q)
    rw [apply_ite Link.names] at h
    exact h
  have hclear := hg.clear p
  obtain ⟨hp, hr, hn⟩ := indexes_rebuild g p x scope
  constructor
  · intro q reader
    rw [hp, hareas, hclear.point, precedentsOf_clear]
    split
    · next h => simp [h]
    · next h => simp [h]
  · intro sheet rect reader
    rw [hr, hareas, hclear.range, precedentsOf_clear]
    split
    · next h => simp [h]
    · next h => simp [h]
  · intro key reader
    rw [hn, hnames, hclear.name, namesReadBy_clear]
    split
    · next h => simp [h]
    · next h => simp [h]

/-! ### Questions to the graph -/

section Questions

variable {g : DependencyGraph}

theorem mem_foldl_ranges (edges : List (Rect × Position)) (test : Rect → Bool) (s : PositionSet)
    (reader : Position) :
    reader ∈ edges.foldl (fun readers (rect, p) => if test rect then readers.insert p else readers) s ↔
      reader ∈ s ∨ ∃ rect, (rect, reader) ∈ edges ∧ test rect = true := by
  rw [holds_foldl_iff (fun s => reader ∈ s) (fun edge : Rect × Position => edge.2 = reader ∧
    test edge.1 = true)]
  · constructor
    · rintro (h | ⟨⟨rect, p⟩, hmem, rfl, ht⟩)
      · exact Or.inl h
      · exact Or.inr ⟨rect, hmem, ht⟩
    · rintro (h | ⟨rect, hmem, ht⟩)
      · exact Or.inl h
      · exact Or.inr ⟨(rect, reader), hmem, rfl, ht⟩
  · rintro s ⟨rect, p⟩
    dsimp only
    split
    · next ht =>
      rw [mem_insert_iff]
      simp [ht, eq_comm, or_comm]
    · next ht => simp [ht]

theorem mem_readersOfPoints (test : Position → Bool) (reader : Position) :
    reader ∈ g.readersOfPoints test ↔
      ∃ p, test p = true ∧ reader ∈ readersUnder g.pointReaders p := by
  unfold readersOfPoints
  rw [Std.TreeMap.foldl_eq_foldl_toList, holds_foldl_iff (fun s => reader ∈ s)
    (fun entry : Position × PositionSet => test entry.1 = true ∧ reader ∈ entry.2)]
  · constructor
    · rintro (h | ⟨⟨p, readers⟩, hmem, ht, hr⟩)
      · exact absurd h Std.TreeSet.not_mem_emptyc
      · refine ⟨p, ht, ?_⟩
        unfold readersUnder
        rw [Std.TreeMap.get?_eq_getElem?, Std.TreeMap.mem_toList_iff_getElem?_eq_some.mp hmem]
        exact hr
    · rintro ⟨p, ht, hr⟩
      unfold readersUnder at hr
      rw [Std.TreeMap.get?_eq_getElem?] at hr
      cases hp : g.pointReaders[p]? with
      | none =>
        rw [hp] at hr
        exact absurd hr Std.TreeSet.not_mem_emptyc
      | some readers =>
        rw [hp] at hr
        exact Or.inr ⟨(p, readers), Std.TreeMap.mem_toList_iff_getElem?_eq_some.mpr hp, ht, hr⟩
  · rintro s ⟨p, readers⟩
    dsimp only
    split
    · next ht =>
      rw [Std.TreeSet.foldl_eq_foldl_toList, mem_foldl_insert, Std.TreeSet.mem_toList]
      simp [ht]
    · next ht => simp [ht]

/-- The readers of a cell are the formulas that read it. -/
theorem mem_readersOf (hg : g.IsSymmetric) {p reader : Position} :
    reader ∈ g.readersOf p ↔ g.Reads reader p := by
  unfold readersOf
  rw [mem_foldl_ranges _ (fun rect => rect.contains p.col p.row), hg.point]
  simp only [hg.range]
  constructor
  · rintro (h | ⟨rect, h, hc⟩)
    · exact ⟨.point p, h, by simp [Area.covers]⟩
    · exact ⟨.range p.sheet rect, h, by simpa [Area.covers] using hc⟩
  · rintro ⟨a, ha, hc⟩
    cases a with
    | point q =>
      have hq : q = p := by simpa [Area.covers] using hc
      exact Or.inl (hq ▸ ha)
    | range sheet rect =>
      have hq : sheet = p.sheet ∧ rect.contains p.col p.row = true := by
        simpa [Area.covers] using hc
      exact Or.inr ⟨rect, hq.1 ▸ ha, hq.2⟩

theorem intersects_single (rect : Rect) (col row : Nat) :
    (Rect.single col row).intersects rect = rect.contains col row := by
  unfold Rect.intersects Rect.contains Rect.single
  rw [Bool.eq_iff_iff]
  simp only [Bool.and_eq_true, decide_eq_true_eq]
  omega

/-- The readers of a rectangle are the formulas with an area on its sheet that shares a cell with it. -/
theorem mem_readersOfRect (hg : g.IsSymmetric) {sheet : SheetId} {rect : Rect} {reader : Position} :
    reader ∈ g.readersOfRect sheet rect ↔
      ∃ a ∈ g.precedentsOf reader, a.sheet = sheet ∧ a.rect.intersects rect = true := by
  unfold readersOfRect
  rw [mem_foldl_ranges _ (fun r => r.intersects rect), mem_readersOfPoints]
  simp only [hg.range, hg.point]
  constructor
  · rintro (⟨p, hp, h⟩ | ⟨r, h, hi⟩)
    · obtain ⟨hs, hc⟩ : p.sheet = sheet ∧ rect.contains p.col p.row = true := by simpa using hp
      exact ⟨.point p, h, hs, by rw [← hc]; exact intersects_single rect p.col p.row⟩
    · exact ⟨.range sheet r, h, rfl, hi⟩
  · rintro ⟨a, ha, hs, hi⟩
    cases a with
    | point p =>
      refine Or.inl ⟨p, ?_, ha⟩
      have hc : rect.contains p.col p.row = true := by
        rw [← intersects_single]
        exact hi
      have hs : p.sheet = sheet := hs
      simp [hs, hc]
    | range sheet' r =>
      have hs : sheet' = sheet := hs
      exact Or.inr ⟨r, hs ▸ ha, hi⟩

/-- The readers of a sheet are the formulas with an area on it. -/
theorem mem_readersOfSheet (hg : g.IsSymmetric) {sheet : SheetId} {reader : Position} :
    reader ∈ g.readersOfSheet sheet ↔ ∃ a ∈ g.precedentsOf reader, a.sheet = sheet := by
  unfold readersOfSheet
  have h := mem_foldl_ranges (g.rangesOn sheet) (fun _ => true)
    (g.readersOfPoints fun p => p.sheet == sheet) reader
  simp only [if_true] at h
  rw [h, mem_readersOfPoints]
  simp only [hg.range, hg.point]
  constructor
  · rintro (⟨p, hp, h⟩ | ⟨r, h, -⟩)
    · have hs : p.sheet = sheet := by simpa using hp
      exact ⟨.point p, h, hs⟩
    · exact ⟨.range sheet r, h, rfl⟩
  · rintro ⟨a, ha, hs⟩
    cases a with
    | point p =>
      have hs : p.sheet = sheet := hs
      exact Or.inl ⟨p, by simp [hs], ha⟩
    | range sheet' r =>
      have hs : sheet' = sheet := hs
      exact Or.inr ⟨r, hs ▸ ha, trivial⟩

/-- The readers of a name are the formulas that look it up. -/
theorem mem_readersOfName (hg : g.IsSymmetric) {name : String} {reader : Position} :
    reader ∈ g.readersOfName name ↔ Text.lower name ∈ g.namesReadBy reader :=
  hg.name (Text.lower name) reader

/-- Every formula that reads an area is among all readers. -/
theorem mem_allReaders (hg : g.IsSymmetric) {reader : Position} :
    reader ∈ g.allReaders ↔ g.precedentsOf reader ≠ [] := by
  unfold allReaders
  rw [Std.TreeMap.foldl_eq_foldl_toList, holds_foldl_iff (fun s => reader ∈ s)
    (fun entry : SheetId × List (Rect × Position) => ∃ rect, (rect, reader) ∈ entry.2)]
  · rw [mem_readersOfPoints]
    simp only [hg.point]
    constructor
    · rintro (⟨p, -, h⟩ | ⟨⟨sheet, edges⟩, hmem, rect, h⟩)
      · exact List.ne_nil_of_mem h
      · apply List.ne_nil_of_mem (a := Area.range sheet rect)
        rw [← hg.range]
        unfold rangesOn
        rw [Std.TreeMap.get?_eq_getElem?, Std.TreeMap.mem_toList_iff_getElem?_eq_some.mp hmem]
        exact h
    · intro h
      obtain ⟨a, ha⟩ := List.exists_mem_of_ne_nil _ h
      cases a with
      | point p => exact Or.inl ⟨p, trivial, ha⟩
      | range sheet rect =>
        rw [← hg.range] at ha
        unfold rangesOn at ha
        rw [Std.TreeMap.get?_eq_getElem?] at ha
        cases hs : g.rangeReaders[sheet]? with
        | none =>
          rw [hs] at ha
          exact absurd ha List.not_mem_nil
        | some edges =>
          rw [hs] at ha
          exact Or.inr
            ⟨(sheet, edges), Std.TreeMap.mem_toList_iff_getElem?_eq_some.mpr hs, rect, ha⟩
  · rintro s ⟨sheet, edges⟩
    have h := mem_foldl_ranges edges (fun _ => true) s reader
    simp only [if_true, and_true] at h
    exact h

/-- A formula that reads a cell is among all readers. -/
theorem Reads.mem_allReaders (hg : g.IsSymmetric) {p reader : Position} (h : g.Reads reader p) :
    reader ∈ g.allReaders := by
  obtain ⟨a, ha, -⟩ := h
  exact (DependencyGraph.mem_allReaders hg).mpr (List.ne_nil_of_mem ha)

end Questions

end DependencyGraph

end Spreadsheet
