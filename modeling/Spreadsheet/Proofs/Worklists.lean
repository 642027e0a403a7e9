import Spreadsheet.Proofs.Histories

/-!
# Worklists: the cells around a cell are found in finitely many steps

What depends on a cell, and what lies on a cycle with it, is found by walks that keep a list of the cells they
have still to look at. No walk is told beforehand where it may go: one looks up the readers of a cell in the
index of points and ranges, the other one expands what a formula reads to the cells that are stored.

* `down` goes from cells to their readers. It ends with the closure of the cells it starts from
  (`DependencyGraph.exists_downEnd`).
* `up` goes from a cell to the cells it reads, and ends with all that it reads, directly or through others
  (`DependencyGraph.exists_upEnd`).
* `Partners` puts both together, without a walk upwards where nothing depends on the cell. With the cell itself,
  they are the cells that read it and are read by it (`Engine.Reachable.findsSurroundings`).

A walk ends because there are finitely many cells with readers or with something they read, and every step takes
one of them out of those that the walk has not found, or one out of those it has to look at.
-/

namespace Spreadsheet

open Relation

/-- A walk under way: the positions it has found, and those it has still to look at, the next one first. -/
structure Walk where
  found : PositionSet := {}
  pending : List Position

namespace Walk

/-- The walk ends in a state from which it goes no further. -/
inductive EndsIn (step : Walk → Option Walk) : Walk → Walk → Prop where
  | stop {s : Walk} (h : step s = none) : EndsIn step s s
  | next {s t u : Walk} (h : step s = some t) (rest : EndsIn step t u) : EndsIn step s u

/-- A walk ends in one way only. -/
theorem EndsIn.unique {step : Walk → Option Walk} {s t u : Walk} (h : EndsIn step s t) (k : EndsIn step s u) :
    t = u := by
  induction h with
  | stop hs =>
    cases k with
    | stop _ => rfl
    | next hs' _ => rw [hs] at hs'; cases hs'
  | next hs _ ih =>
    cases k with
    | stop hs' => rw [hs'] at hs; cases hs
    | next hs' rest => exact ih (Option.some.inj (hs'.symm.trans hs) ▸ rest)

/-- A walk whose steps keep something and make something smaller comes to an end, and still has what they keep. -/
theorem exists_endsIn {step : Walk → Option Walk} {P : Walk → Prop} {size : Walk → Nat}
    (hstep : ∀ s t, P s → step s = some t → P t ∧ size t < size s) {s : Walk} (hs : P s) :
    ∃ t, EndsIn step s t ∧ P t ∧ step t = none := by
  induction hn : size s using Nat.strongRecOn generalizing s with
  | ind n ih =>
    cases hnext : step s with
    | none => exact ⟨s, .stop hnext, hs, hnext⟩
    | some t =>
      obtain ⟨ht, hless⟩ := hstep s t hs hnext
      obtain ⟨u, hends, hu, hstop⟩ := ih _ (hn ▸ hless) ht rfl
      exact ⟨u, .next hnext hends, hu, hstop⟩

/-! ### What has not been found -/

theorem not_contains_iff (s : PositionSet) (q : Position) : (!s.contains q) = true ↔ q ∉ s := by
  rw [Bool.not_eq_true', ← Bool.not_eq_true, ← Std.TreeSet.mem_iff_contains]

/-- The positions of a set that a walk has not found. -/
def unfound (within : PositionSet) (found : PositionSet) : PositionSet := within.filter fun p => !found.contains p

/-- A number for each position that has not been found is left over when the position is found. -/
theorem sumOver_unfound_insert (f : Position → Nat) {within found : PositionSet} {p : Position} (hp : p ∈ within)
    (hnew : p ∉ found) : sumOver f (unfound within found) = f p + sumOver f (unfound within (found.insert p)) := by
  have hmem : ∀ t q, q ∈ unfound within t ↔ q ∈ within ∧ q ∉ t := by
    intro t q
    unfold unfound
    rw [mem_filter_iff, not_contains_iff]
  rw [sumOver_eq_of_mem f ((hmem found p).mpr ⟨hp, hnew⟩)]
  have hsame : ((unfound within found).erase p).Equiv (unfound within (found.insert p)) := by
    refine .of_forall_mem_iff fun q => ?_
    rw [mem_erase_iff, hmem, hmem, mem_insert_iff]
    tauto
  unfold sumOver
  rw [hsame.toList_eq]

end Walk

namespace DependencyGraph

variable {g : DependencyGraph} {w : Workbook}

/-! ### From cells to their readers -/

/-- The readers of a cell that have not been found, the last one first. -/
def newReaders (g : DependencyGraph) (p : Position) (found : PositionSet) : List Position :=
  ((g.readersOf p).toList.filter fun q => !found.contains q).reverse

theorem mem_newReaders {p q : Position} {found : PositionSet} :
    q ∈ g.newReaders p found ↔ q ∈ g.readersOf p ∧ q ∉ found := by
  unfold newReaders
  rw [List.mem_reverse, List.mem_filter, Std.TreeSet.mem_toList, Walk.not_contains_iff]

/-- One step towards the readers: a cell that has been found before is passed over, and any other one is found,
with its readers to look at next, as far as they have not been found. -/
def down (g : DependencyGraph) (s : Walk) : Option Walk :=
  match s.pending with
  | [] => none
  | p :: rest =>
    if s.found.contains p then some { s with pending := rest }
    else
      let found := s.found.insert p
      some ⟨found, g.newReaders p found ++ rest⟩

/-- What holds of a walk towards the readers: all it has come upon depends on one of its seeds, no seed is left
out, and the readers of what it has found are found or pending. -/
structure GoesDown (g : DependencyGraph) (seeds : List Position) (s : Walk) : Prop where
  sound : ∀ q, q ∈ s.found ∨ q ∈ s.pending → ∃ p ∈ seeds, ReflTransGen (fun a b => b ∈ g.readersOf a) p q
  seeded : ∀ p ∈ seeds, p ∈ s.found ∨ p ∈ s.pending
  closed : ∀ p ∈ s.found, ∀ q ∈ g.readersOf p, q ∈ s.found ∨ q ∈ s.pending

theorem goesDown_start (g : DependencyGraph) (seeds : List Position) : g.GoesDown seeds ⟨{}, seeds.reverse⟩ where
  sound q hq := by
    refine ⟨q, List.mem_reverse.mp (hq.resolve_left Std.TreeSet.not_mem_emptyc), .refl⟩
  seeded p hp := Or.inr (List.mem_reverse.mpr hp)
  closed p hp := absurd hp Std.TreeSet.not_mem_emptyc

/-- The seeds and everything that reads anything: a walk towards the readers stays among them. -/
def downRange (g : DependencyGraph) (seeds : List Position) : PositionSet :=
  seeds.foldl (fun s p => s.insert p) g.allReaders

theorem mem_downRange (hg : g.IsSymmetric) {seeds : List Position} {p q : Position} (hp : p ∈ seeds)
    (h : ReflTransGen (fun a b => b ∈ g.readersOf a) p q) : q ∈ g.downRange seeds := by
  refine (mem_foldl_insert _ _ _).mpr ?_
  rcases ReflTransGen.cases_tail h with rfl | ⟨r, -, hq⟩
  · exact Or.inr hp
  · exact Or.inl (((mem_readersOf hg).mp hq).mem_allReaders hg)

/-- A cell that has been found is passed over. -/
theorem GoesDown.passOver {seeds : List Position} {found : PositionSet} {p : Position} {rest : List Position}
    (h : g.GoesDown seeds ⟨found, p :: rest⟩) (hp : p ∈ found) : g.GoesDown seeds ⟨found, rest⟩ := by
  have hkept : ∀ q, q ∈ found ∨ q ∈ p :: rest → q ∈ found ∨ q ∈ rest := by
    rintro q (hq | hq)
    · exact Or.inl hq
    · rcases List.mem_cons.mp hq with rfl | hq
      · exact Or.inl hp
      · exact Or.inr hq
  constructor
  case sound => exact fun q hq => h.sound q (hq.imp_right (List.mem_cons_of_mem p))
  case seeded => exact fun q hq => hkept q (h.seeded q hq)
  case closed => exact fun r hr q hq => hkept q (h.closed r hr q hq)

/-- A cell that has not been found is found, and its new readers are to be looked at. -/
theorem GoesDown.visit {seeds : List Position} {found : PositionSet} {p : Position} {rest : List Position}
    (h : g.GoesDown seeds ⟨found, p :: rest⟩) :
    g.GoesDown seeds ⟨found.insert p, g.newReaders p (found.insert p) ++ rest⟩ := by
  have hkept : ∀ q, q ∈ found ∨ q ∈ p :: rest →
      q ∈ found.insert p ∨ q ∈ g.newReaders p (found.insert p) ++ rest := by
    rintro q (hq | hq)
    · exact Or.inl ((mem_insert_iff _ _ _).mpr (Or.inr hq))
    · rcases List.mem_cons.mp hq with rfl | hq
      · exact Or.inl ((mem_insert_iff _ _ _).mpr (Or.inl rfl))
      · exact Or.inr (List.mem_append_right _ hq)
  constructor
  case sound =>
    obtain ⟨seed, hseed, hway⟩ := h.sound p (Or.inr List.mem_cons_self)
    rintro q (hq | hq)
    · rcases (mem_insert_iff _ _ _).mp hq with rfl | hq
      · exact ⟨seed, hseed, hway⟩
      · exact h.sound q (Or.inl hq)
    · rcases List.mem_append.mp hq with hq | hq
      · exact ⟨seed, hseed, hway.tail (mem_newReaders.mp hq).1⟩
      · exact h.sound q (Or.inr (List.mem_cons_of_mem p hq))
  case seeded => exact fun q hq => hkept q (h.seeded q hq)
  case closed =>
    intro r hr q hq
    rcases (mem_insert_iff _ _ _).mp hr with rfl | hr
    · by_cases hfound : q ∈ found.insert r
      · exact Or.inl hfound
      · exact Or.inr (List.mem_append_left _ (mem_newReaders.mpr ⟨hq, hfound⟩))
    · exact hkept q (h.closed r hr q hq)

/-- What a walk towards the readers has still to do: look at the pending cells, and at the readers of those that it
has not found. -/
def downWork (g : DependencyGraph) (seeds : List Position) (s : Walk) : Nat :=
  s.pending.length + sumOver (fun p => (g.readersOf p).toList.length) (Walk.unfound (g.downRange seeds) s.found)

/-- **One step towards the readers** keeps what holds of the walk, and leaves it with less to do. -/
theorem GoesDown.step (hg : g.IsSymmetric) {seeds : List Position} {s t : Walk} (h : g.GoesDown seeds s)
    (hstep : g.down s = some t) : g.GoesDown seeds t ∧ g.downWork seeds t < g.downWork seeds s := by
  obtain ⟨found, pending⟩ := s
  unfold down at hstep
  match pending with
  | [] => cases hstep
  | p :: rest =>
    dsimp only at hstep
    split at hstep
    · next hfound =>
      cases hstep
      refine ⟨h.passOver hfound, ?_⟩
      simp only [downWork, List.length_cons]
      omega
    · next hnew =>
      cases hstep
      refine ⟨h.visit, ?_⟩
      obtain ⟨seed, hseed, hway⟩ := h.sound p (Or.inr List.mem_cons_self)
      have hless := Walk.sumOver_unfound_insert (fun p => (g.readersOf p).toList.length)
        (mem_downRange hg hseed hway) hnew
      have hfew : (g.newReaders p (found.insert p)).length ≤ (g.readersOf p).toList.length := by
        unfold newReaders
        rw [List.length_reverse]
        exact List.length_filter_le _ _
      simp only [downWork, List.length_append, List.length_cons]
      omega

/-- **The walk towards the readers ends**, and has found exactly the seeds and what is reached from them along
the readers. -/
theorem exists_downEnd (hg : g.IsSymmetric) (seeds : List Position) :
    ∃ t, Walk.EndsIn g.down ⟨{}, seeds.reverse⟩ t ∧
      ∀ q, q ∈ t.found ↔ ∃ p ∈ seeds, ReflTransGen (fun a b => b ∈ g.readersOf a) p q := by
  obtain ⟨t, hends, ht, hstop⟩ := Walk.exists_endsIn (fun _ _ hs => hs.step hg) (goesDown_start g seeds)
  have hnone : t.pending = [] := by
    unfold down at hstop
    split at hstop
    · next hpending => exact hpending
    · split at hstop <;> cases hstop
  refine ⟨t, hends, fun q => ⟨fun hq => ht.sound q (Or.inl hq), ?_⟩⟩
  rintro ⟨p, hp, hway⟩
  have hfound : ∀ q, q ∈ t.found ∨ q ∈ t.pending → q ∈ t.found := fun q hq =>
    hq.resolve_right (by rw [hnone]; exact List.not_mem_nil)
  induction hway with
  | refl => exact hfound p (ht.seeded p hp)
  | tail _ hq ih => exact hfound _ (ht.closed _ ih _ hq)

/-! ### From a cell to what it reads -/

/-- A position that has not been found is found, and is to be looked at. -/
def note (s : Walk) (q : Position) : Walk :=
  if s.found.contains q then s else ⟨s.found.insert q, q :: s.pending⟩

/-- One step towards the cells that are read: those that the next cell reads are found. -/
def up (g : DependencyGraph) (w : Workbook) (s : Walk) : Option Walk :=
  match s.pending with
  | [] => none
  | p :: rest => some ((g.cellsReadBy w p).foldl note { s with pending := rest })

theorem mem_foldl_note (qs : List Position) (s : Walk) (q : Position) :
    (q ∈ (qs.foldl note s).found ↔ q ∈ s.found ∨ q ∈ qs) ∧
      (q ∈ (qs.foldl note s).pending ↔ q ∈ s.pending ∨ (q ∈ qs ∧ q ∉ s.found)) := by
  induction qs generalizing s with
  | nil => simp
  | cons r qs ih =>
    rw [List.foldl_cons, (ih _).1, (ih _).2, List.mem_cons]
    unfold note
    split
    · next hr =>
      have hr : r ∈ s.found := hr
      by_cases hq : q = r
      · subst hq
        simp [hr]
      · simp [hq]
    · next hr =>
      have hr : r ∉ s.found := hr
      dsimp only
      rw [mem_insert_iff, List.mem_cons]
      by_cases hq : q = r
      · subst hq
        simp [hr]
      · simp [hq]

/-- What a walk towards the cells that are read has still to do: look at the pending cells, and at those of a set
that it has not found. -/
def upWork (within : PositionSet) (s : Walk) : Nat :=
  s.pending.length + sumOver (fun _ => 1) (Walk.unfound within s.found)

/-- A cell that is found and is to be looked at leaves as much to do as before. -/
theorem upWork_foldl_note {within : PositionSet} {qs : List Position} (hqs : ∀ q ∈ qs, q ∈ within) (s : Walk) :
    upWork within (qs.foldl note s) = upWork within s := by
  induction qs generalizing s with
  | nil => rfl
  | cons r qs ih =>
    rw [List.foldl_cons, ih fun q hq => hqs q (List.mem_cons_of_mem r hq)]
    unfold note
    split
    · rfl
    · next hr =>
      simp only [upWork, List.length_cons]
      rw [Walk.sumOver_unfound_insert (fun _ => 1) (hqs r List.mem_cons_self) hr]
      omega

/-- Everything that any formula reads, ranges expanded to the cells that are stored. -/
def upRange (g : DependencyGraph) (w : Workbook) : PositionSet :=
  Std.TreeSet.ofList (g.reads.keys.flatMap (g.cellsReadBy w))

theorem mem_upRange {p q : Position} (h : q ∈ g.cellsReadBy w p) : q ∈ g.upRange w := by
  refine (mem_ofList_iff _ _).mpr (List.mem_flatMap.mpr ⟨p, ?_, h⟩)
  rw [Std.TreeMap.mem_keys, Std.TreeMap.mem_iff_isSome_getElem?]
  by_contra hnone
  have hareas : g.precedentsOf p = [] := by
    unfold precedentsOf
    rw [Std.TreeMap.get?_eq_getElem?, Option.not_isSome_iff_eq_none.mp hnone]
    rfl
  unfold cellsReadBy at h
  rw [hareas] at h
  cases h

/-- What holds of a walk towards the cells that are read: it has found only what the first cell reads, directly
or through others, and of every cell that it is done with it has found all that the cell reads. -/
structure GoesUp (g : DependencyGraph) (w : Workbook) (k : Position) (s : Walk) : Prop where
  sound : ∀ q ∈ s.found, TransGen (fun a b => b ∈ g.cellsReadBy w a) k q
  known : ∀ q ∈ s.pending, q = k ∨ q ∈ s.found
  closed : ∀ p, p = k ∨ p ∈ s.found → p ∈ s.pending ∨ ∀ q ∈ g.cellsReadBy w p, q ∈ s.found

theorem goesUp_start (g : DependencyGraph) (w : Workbook) (k : Position) : g.GoesUp w k ⟨{}, [k]⟩ where
  sound _ hq := absurd hq Std.TreeSet.not_mem_emptyc
  known _ hq := Or.inl (List.mem_singleton.mp hq)
  closed _ hp := Or.inl (List.mem_singleton.mpr (hp.resolve_right Std.TreeSet.not_mem_emptyc))

/-- **One step towards the cells that are read** keeps what holds of the walk, and leaves it with less to do. -/
theorem GoesUp.step {k : Position} {s t : Walk} (h : g.GoesUp w k s) (hstep : g.up w s = some t) :
    g.GoesUp w k t ∧ upWork (g.upRange w) t < upWork (g.upRange w) s := by
  obtain ⟨found, pending⟩ := s
  unfold up at hstep
  match pending with
  | [] => cases hstep
  | p :: rest =>
    cases hstep
    have hmem := mem_foldl_note (g.cellsReadBy w p) ⟨found, rest⟩
    refine ⟨⟨fun q hq => ?_, fun q hq => ?_, fun r hr => ?_⟩, ?_⟩
    · rcases (hmem q).1.mp hq with hq | hq
      · exact h.sound q hq
      · rcases h.known p List.mem_cons_self with rfl | hp
        · exact .single hq
        · exact (h.sound p hp).tail hq
    · rw [(hmem q).1]
      rcases (hmem q).2.mp hq with hq | ⟨hq, -⟩
      · exact (h.known q (List.mem_cons_of_mem p hq)).imp_right Or.inl
      · exact Or.inr (Or.inr hq)
    · -- a cell that this step finds is to be looked at; any other one is so already, or is done with
      by_cases hold : r = k ∨ r ∈ found
      · rcases h.closed r hold with hpending | hdone
        · rcases List.mem_cons.mp hpending with rfl | hpending
          · exact Or.inr fun q hq => (hmem q).1.mpr (Or.inr hq)
          · exact Or.inl ((hmem r).2.mpr (Or.inl hpending))
        · exact Or.inr fun q hq => (hmem q).1.mpr (Or.inl (hdone q hq))
      · obtain ⟨hne, hnew⟩ := not_or.mp hold
        have hr := ((hmem r).1.mp (hr.resolve_left hne)).resolve_left hnew
        exact Or.inl ((hmem r).2.mpr (Or.inr ⟨hr, hnew⟩))
    · rw [upWork_foldl_note fun q hq => mem_upRange hq]
      simp only [upWork, List.length_cons]
      omega

/-- **The walk towards the cells that are read ends**, and has found all that the cell reads, directly or through
others. -/
theorem exists_upEnd (g : DependencyGraph) (w : Workbook) (k : Position) :
    ∃ t, Walk.EndsIn (g.up w) ⟨{}, [k]⟩ t ∧
      ∀ q, q ∈ t.found ↔ TransGen (fun a b => b ∈ g.cellsReadBy w a) k q := by
  obtain ⟨t, hends, ht, hstop⟩ := Walk.exists_endsIn (fun _ _ hs => hs.step) (goesUp_start g w k)
  have hnone : t.pending = [] := by
    unfold up at hstop
    split at hstop
    · next hpending => exact hpending
    · cases hstop
  have hdone : ∀ p, p = k ∨ p ∈ t.found → ∀ q ∈ g.cellsReadBy w p, q ∈ t.found := fun p hp =>
    (ht.closed p hp).resolve_left (by rw [hnone]; exact List.not_mem_nil)
  refine ⟨t, hends, fun q => ⟨ht.sound q, fun hway => ?_⟩⟩
  induction hway with
  | single hq => exact hdone k (Or.inl rfl) _ hq
  | tail _ hq ih => exact hdone _ (Or.inr ih) _ hq

/-! ### Cells on a cycle with a cell -/

/-- The cells on a cycle with a cell, as the two walks find them: those that the walk upwards has found, if the
walk downwards has found them too. There is no walk upwards if nothing but the cell was found downwards. -/
def Partners (g : DependencyGraph) (w : Workbook) (k : Position) (members : PositionSet) : Prop :=
  ∃ below, Walk.EndsIn g.down ⟨{}, [k]⟩ below ∧
    if below.found.size ≤ 1 then members = {}
    else ∃ above, Walk.EndsIn (g.up w) ⟨{}, [k]⟩ above ∧ members = above.found.filter below.found.contains

/-- A stored cell that a formula reads, directly or through others, is found by the walk towards the cells that
are read: what stands in between has formulas, and so is stored. -/
theorem readBy_of_reads (hstored : ∀ r, g.precedentsOf r ≠ [] → (w.cell? r).isSome = true) {k q : Position}
    (h : TransGen g.Reads k q) (hq : (w.cell? q).isSome = true) : TransGen (fun a b => b ∈ g.cellsReadBy w a) k q := by
  induction h with
  | single hreads => exact .single (mem_cellsReadBy_of_stored hreads hq)
  | tail _ hreads ih =>
    have hread := mem_cellsReadBy_of_stored hreads hq
    obtain ⟨a, ha, -⟩ := hreads
    exact (ih (hstored _ (List.ne_nil_of_mem ha))).tail hread

/-- Of a cell from which the first one is reached again, both walks upwards know alike. -/
theorem mem_sources_iff (hw : w.WellFormed) (hstored : ∀ r, g.precedentsOf r ≠ [] → (w.cell? r).isSome = true)
    {k q : Position} (hback : ReflTransGen g.Reads q k) :
    (q ∈ g.sources w k ↔ TransGen g.Reads k q) ∧
      (TransGen (fun a b => b ∈ g.cellsReadBy w a) k q ↔ TransGen g.Reads k q) := by
  have hcycle : TransGen g.Reads k q → (w.cell? q).isSome = true := by
    intro h
    obtain ⟨_, ⟨a, ha, -⟩, -⟩ := TransGen.head'_iff.mp (TransGen.trans_right hback h)
    exact hstored q (List.ne_nil_of_mem ha)
  exact ⟨⟨reads_of_mem_sources, fun h => mem_sources hw hstored h (hcycle h)⟩,
    ⟨TransGen.mono (fun _ _ => mem_cellsReadBy g w) _ _, fun h => readBy_of_reads hstored h (hcycle h)⟩⟩

/-- The ways along the readers are those along what is read, taken backwards. -/
theorem reaches_iff_reads (hg : g.IsSymmetric) {p q : Position} :
    ReflTransGen (fun a b => b ∈ g.readersOf a) p q ↔ ReflTransGen g.Reads q p := by
  rw [← reflTransGen_swap]
  have hswap : (fun a b => b ∈ g.readersOf a) = Function.swap g.Reads := by
    funext a b
    exact propext (mem_readersOf hg)
  rw [hswap]

/-- **The walk towards the readers finds the closure** of the cells that it starts from. -/
theorem downEnd_found (hg : g.IsSymmetric) (seeds : List Position) {t : Walk}
    (ht : Walk.EndsIn g.down ⟨{}, seeds.reverse⟩ t) :
    t.found.Equiv (g.closure seeds) ∧
      ∀ q, q ∈ t.found ↔ ∃ p ∈ seeds, ReflTransGen (fun a b => b ∈ g.readersOf a) p q := by
  obtain ⟨u, hu, hfound⟩ := exists_downEnd hg seeds
  obtain rfl := ht.unique hu
  refine ⟨.of_forall_mem_iff fun q => ?_, hfound⟩
  rw [hfound, mem_closure hg]
  simp only [reaches_iff_reads hg]

/-- From a cell, the walk towards the readers finds what reads the cell. -/
theorem mem_downEnd (hg : g.IsSymmetric) {k q : Position} {t : Walk} (ht : Walk.EndsIn g.down ⟨{}, [k]⟩ t) :
    q ∈ t.found ↔ ReflTransGen g.Reads q k := by
  rw [(downEnd_found hg [k] ht).2, ← reaches_iff_reads hg]
  simp

/-- Both walks end. -/
theorem exists_partners (hg : g.IsSymmetric) (w : Workbook) (k : Position) : ∃ members, g.Partners w k members := by
  obtain ⟨below, hbelow, -⟩ := exists_downEnd hg [k]
  obtain ⟨above, habove, -⟩ := exists_upEnd g w k
  by_cases hsize : below.found.size ≤ 1
  · exact ⟨{}, below, hbelow, by rw [if_pos hsize]⟩
  · exact ⟨_, below, hbelow, by rw [if_neg hsize]; exact ⟨above, habove, rfl⟩⟩

/-- **The walks find the members of the cycles of a cell**, and with the cell these are its strongly connected
component. -/
theorem Partners.found (hg : g.IsSymmetric) (hw : w.WellFormed)
    (hstored : ∀ r, g.precedentsOf r ≠ [] → (w.cell? r).isSome = true) {k : Position} {members : PositionSet}
    (h : g.Partners w k members) : members.toList = (g.cycleMembers w k).toList ∧
      ∀ q, q = k ∨ q ∈ members ↔ ReflTransGen g.Reads k q ∧ ReflTransGen g.Reads q k := by
  obtain ⟨below, hbelow, hrest⟩ := h
  have hsame := (downEnd_found hg [k] hbelow).1
  have hk : k ∈ below.found := (mem_downEnd hg hbelow).mpr .refl
  unfold cycleMembers
  dsimp only
  rw [← hsame.size_eq]
  split at hrest
  · next hsize =>
    rw [hrest, if_pos hsize]
    refine ⟨rfl, fun q => ⟨?_, ?_⟩⟩
    · rintro (rfl | hq)
      · exact ⟨.refl, .refl⟩
      · exact absurd hq Std.TreeSet.not_mem_emptyc
    · rintro ⟨-, hq⟩
      by_contra hne
      exact one_lt_size ((mem_downEnd hg hbelow).mpr hq) hk (fun heq => hne (Or.inl heq)) hsize
  · next hsize =>
    obtain ⟨above, habove, rfl⟩ := hrest
    obtain ⟨u, hu, hup⟩ := exists_upEnd g w k
    obtain rfl := habove.unique hu
    rw [if_neg hsize]
    have hboth : ∀ q, q ∈ above.found.filter below.found.contains ↔
        TransGen g.Reads k q ∧ ReflTransGen g.Reads q k := by
      intro q
      rw [mem_filter_iff, ← Std.TreeSet.mem_iff_contains, hup, mem_downEnd hg hbelow]
      exact and_congr_left fun hback => (mem_sources_iff hw hstored hback).2
    refine ⟨Std.TreeSet.Equiv.toList_eq (.of_forall_mem_iff fun q => ?_), fun q => ?_⟩
    · rw [hboth, mem_filter_iff, ← Std.TreeSet.mem_iff_contains, ← hsame.mem_iff, mem_downEnd hg hbelow]
      exact and_congr_left fun hback => (mem_sources_iff hw hstored hback).1.symm
    · rw [hboth]
      constructor
      · rintro (rfl | ⟨hto, hback⟩)
        · exact ⟨.refl, .refl⟩
        · exact ⟨hto.to_reflTransGen, hback⟩
      · rintro ⟨hto, hback⟩
        exact (reflTransGen_iff_eq_or_transGen.mp hto).imp_right fun hto => ⟨hto, hback⟩

/-- The walks around the cells of a graph end, and find what its sets hold. -/
structure FindsSurroundings (g : DependencyGraph) (w : Workbook) : Prop where
  /-- The index of readers answers as the records of the formulas do. -/
  edges : ∀ p q : Position, q ∈ g.readersOf p ↔ g.Reads q p
  downEnds : ∀ seeds : List Position, ∃ t, Walk.EndsIn g.down ⟨{}, seeds.reverse⟩ t
  /-- The closure of some cells: the cells, and all that is reached from them along the readers. -/
  closure : ∀ (seeds : List Position) (t : Walk), Walk.EndsIn g.down ⟨{}, seeds.reverse⟩ t →
    t.found.toList = (g.closure seeds).toList ∧
      ∀ q, q ∈ t.found ↔ ∃ p ∈ seeds, ReflTransGen (fun a b => b ∈ g.readersOf a) p q
  partnersEnd : ∀ k, ∃ members, g.Partners w k members
  /-- A cell and the members of its cycles: its strongly connected component. -/
  partners : ∀ k members, g.Partners w k members → members.toList = (g.cycleMembers w k).toList ∧
    ∀ q, q = k ∨ q ∈ members ↔ ReflTransGen g.Reads k q ∧ ReflTransGen g.Reads q k

theorem findsSurroundings_of_symmetric (hg : g.IsSymmetric) (hw : w.WellFormed)
    (hstored : ∀ r, g.precedentsOf r ≠ [] → (w.cell? r).isSome = true) : g.FindsSurroundings w where
  edges _ _ := mem_readersOf hg
  downEnds seeds := (exists_downEnd hg seeds).imp fun _ h => h.1
  closure seeds _ ht := (downEnd_found hg seeds ht).imp_left Std.TreeSet.Equiv.toList_eq
  partnersEnd := exists_partners hg w
  partners _ _ h := h.found hg hw hstored

end DependencyGraph

namespace Engine

/-- **The walks find the cells around a cell**, in every engine that calls lead to: they end, what depends on some
cells is what reads them, directly or through others, and the cells on a cycle with a cell are those that read it
and are read by it. -/
theorem Reachable.findsSurroundings {library : Library} {e : Engine} (h : Reachable library e) :
    e.graph.FindsSurroundings e.workbook :=
  DependencyGraph.findsSurroundings_of_symmetric h.consistent.symmetric h.consistent.wellFormed
    fun _ => isSome_of_precedents h.consistent

/-- Calls after which `A1` sums a range with an empty cell, in which it finds two cells that read it, and `E1` reads
one of them. -/
def cycleThroughRange : List Call :=
  [.addSheet "S", .setFormula firstSheet (.plain 1 1) "=SUM(B1:D1)", .setFormula firstSheet (.plain 2 1) "=A1",
    .setFormula firstSheet (.plain 4 1) "=B1", .setFormula firstSheet (.plain 5 1) "=D1"]

theorem findsSurroundings_cycleThroughRange :
    Reachable .standard ((start {} .standard).run cycleThroughRange) ∧
      ((start {} .standard).run cycleThroughRange).graph.FindsSurroundings
        ((start {} .standard).run cycleThroughRange).workbook ∧
      (((start {} .standard).run cycleThroughRange).graph.closure [⟨firstSheet, 1, 3⟩]).toList =
        [⟨firstSheet, 1, 1⟩, ⟨firstSheet, 1, 2⟩, ⟨firstSheet, 1, 3⟩, ⟨firstSheet, 1, 4⟩, ⟨firstSheet, 1, 5⟩] ∧
      (((start {} .standard).run cycleThroughRange).graph.cycleMembers
          ((start {} .standard).run cycleThroughRange).workbook ⟨firstSheet, 1, 4⟩).toList =
        [⟨firstSheet, 1, 1⟩, ⟨firstSheet, 1, 2⟩, ⟨firstSheet, 1, 4⟩] := by
  have hreachable : Reachable .standard ((start {} .standard).run cycleThroughRange) :=
    (Reachable.start {} ⟨by decide, by decide⟩).run cycleThroughRange
  exact ⟨hreachable, Reachable.findsSurroundings hreachable, by decide +kernel, by decide +kernel⟩

end Engine

end Spreadsheet
