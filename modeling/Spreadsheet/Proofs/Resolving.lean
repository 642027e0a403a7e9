import Spreadsheet.Dependency.Graph
import Spreadsheet.Proofs.Sets

/-!
# Resolving the references of a formula

`DependencyGraph.resolveAll` turns the references of a formula into the areas it reads, or stops at the
first reference that means nothing. Both outcomes are described by the references alone:

* `resolveAll_eq_ok` — it succeeds exactly if every reference means an area, and what it returns are
  these areas and nothing else;
* `kind_of_resolveAll_eq_error` — the error is always an invalid reference;
* `toOption_resolveAll_of_targets` — the outcome only depends on what each single reference means.
-/

namespace Spreadsheet

open Grid

namespace Scope

section Meaning

variable {scope : Scope} {sheet : SheetId} {a : Area}

/-- A reference to a cell means this cell, on a sheet that is there and inside the grid. -/
theorem resolve_cell {qualifier : Option String} {address : Address} :
    scope.resolve (.cell qualifier address) sheet = .ok a ↔
      ∃ id, scope.qualified? sheet qualifier = some id ∧ address.isWithin scope.columns scope.rows = true ∧
        a = .point (.ofAddress id address) := by
  unfold resolve
  dsimp only
  cases scope.qualified? sheet qualifier with
  | none => simp
  | some id =>
    dsimp only
    split
    · next hin => simp [hin, eq_comm]
    · next hin => simp [hin]

/-- A reference to a range means the rectangle that its corners span. -/
theorem resolve_range {qualifier : Option String} {first last : Address} :
    scope.resolve (.range qualifier first last) sheet = .ok a ↔
      ∃ id, scope.qualified? sheet qualifier = some id ∧
        (Rect.ofCorners first last).isWithin scope.columns scope.rows = true ∧
        a = .range id (Rect.ofCorners first last) := by
  unfold resolve
  dsimp only
  cases scope.qualified? sheet qualifier with
  | none => simp
  | some id =>
    dsimp only
    split
    · next hin => simp [hin, eq_comm]
    · next hin => simp [hin]

/-- A name means the area that has it. -/
theorem resolve_name {name : String} :
    scope.resolve (.name name) sheet = .ok a ↔ ∃ area, scope.area? name = some area ∧ a = .range area.1 area.2 := by
  unfold resolve
  dsimp only
  cases scope.area? name with
  | none => simp
  | some area => simp [eq_comm]

end Meaning

/-- Two scopes give a reference the same area, or none. Which problem keeps a reference from meaning
one does not count. -/
def AgreeOn (scope scope' : Scope) (sheet : SheetId) (r : Reference) : Prop :=
  ∀ a, scope.resolve r sheet = .ok a ↔ scope'.resolve r sheet = .ok a

theorem AgreeOn.refl (scope : Scope) (sheet : SheetId) (r : Reference) : scope.AgreeOn scope sheet r :=
  fun _ => Iff.rfl

/-- A scope that keeps the meaning of the sheet names and areas of another agrees with it wherever the
other gives an area. -/
theorem resolve_eq_ok_of_keeps {scope scope' : Scope} {sheet : SheetId} {r : Reference} {a : Area}
    (hsize : scope'.columns = scope.columns ∧ scope'.rows = scope.rows)
    (hsheet : ∀ name id, r.sheet? = some name → scope.sheet? name = some id → scope'.sheet? name = some id)
    (harea : ∀ name area, r = .name name → scope.area? name = some area → scope'.area? name = some area)
    (h : scope.resolve r sheet = .ok a) : scope'.resolve r sheet = .ok a := by
  have hqualified : ∀ id, scope.qualified? sheet r.sheet? = some id →
      scope'.qualified? sheet r.sheet? = some id := by
    intro id hid
    cases hr : r.sheet? with
    | none =>
      rw [hr] at hid
      exact hid
    | some name =>
      rw [hr] at hid
      exact hsheet name id hr hid
  cases r with
  | cell qualifier address =>
    obtain ⟨id, hid, hin, rfl⟩ := resolve_cell.mp h
    exact resolve_cell.mpr ⟨id, hqualified id hid, by rwa [hsize.1, hsize.2], rfl⟩
  | range qualifier first last =>
    obtain ⟨id, hid, hin, rfl⟩ := resolve_range.mp h
    exact resolve_range.mpr ⟨id, hqualified id hid, by rwa [hsize.1, hsize.2], rfl⟩
  | name name =>
    obtain ⟨area, hfound, rfl⟩ := resolve_name.mp h
    exact resolve_name.mpr ⟨area, harea name area rfl hfound, rfl⟩

/-- A reference that means the same area in two scopes is one they agree on. -/
theorem AgreeOn.of_ok {scope scope' : Scope} {sheet : SheetId} {r : Reference} {a : Area}
    (h : scope.resolve r sheet = .ok a) (h' : scope'.resolve r sheet = .ok a) :
    scope.AgreeOn scope' sheet r := by
  intro b
  rw [h, h']

/-- The sheet of the area that a reference means: that of its qualifier, of its formula, or of the named
area. -/
theorem sheet_of_resolve {scope : Scope} {sheet : SheetId} {r : Reference} {a : Area}
    (h : scope.resolve r sheet = .ok a) :
    (∀ name, r.sheet? = some name → scope.sheet? name = some a.sheet) ∧
      ∀ name, r = .name name → ∃ rect, scope.area? name = some (a.sheet, rect) := by
  have hqualified : ∀ {qualifier : Option String} {id : SheetId} {name : String},
      scope.qualified? sheet qualifier = some id → qualifier = some name → scope.sheet? name = some id := by
    rintro qualifier id name hid rfl
    exact hid
  cases r with
  | cell qualifier address =>
    obtain ⟨id, hid, -, rfl⟩ := resolve_cell.mp h
    exact ⟨fun name hname => hqualified hid hname, nofun⟩
  | range qualifier first last =>
    obtain ⟨id, hid, -, rfl⟩ := resolve_range.mp h
    exact ⟨fun name hname => hqualified hid hname, nofun⟩
  | name n =>
    obtain ⟨area, harea, rfl⟩ := resolve_name.mp h
    refine ⟨nofun, fun name hname => ?_⟩
    cases hname
    exact ⟨area.2, harea⟩

/-- The sheet of an area that a reference means is among the sheets that can be meant. -/
theorem sheet_mem_of_resolve {scope : Scope} {P : SheetId → Prop} {sheet : SheetId}
    (hsheet : P sheet) (hnamed : ∀ name id, scope.sheet? name = some id → P id)
    (harea : ∀ name id rect, scope.area? name = some (id, rect) → P id) {r : Reference} {a : Area}
    (h : scope.resolve r sheet = .ok a) : P a.sheet := by
  have hqualified : ∀ qualifier id, scope.qualified? sheet qualifier = some id → P id := by
    intro qualifier id hid
    cases qualifier with
    | none =>
      obtain rfl : sheet = id := Option.some.inj hid
      exact hsheet
    | some name => exact hnamed name id hid
  cases r with
  | cell qualifier address =>
    obtain ⟨id, hid, -, rfl⟩ := resolve_cell.mp h
    exact hqualified qualifier id hid
  | range qualifier first last =>
    obtain ⟨id, hid, -, rfl⟩ := resolve_range.mp h
    exact hqualified qualifier id hid
  | name name =>
    obtain ⟨area, hfound, rfl⟩ := resolve_name.mp h
    exact harea name area.1 area.2 hfound

/-- Whether a reference means an area at all depends on whether its sheet or name does. -/
theorem exists_resolve_of_keeps {scope scope' : Scope} {sheet : SheetId} {r : Reference}
    (hsize : scope'.columns = scope.columns ∧ scope'.rows = scope.rows)
    (hsheet : ∀ name id, r.sheet? = some name → scope.sheet? name = some id →
      ∃ id', scope'.sheet? name = some id')
    (harea : ∀ name area, r = .name name → scope.area? name = some area →
      ∃ area', scope'.area? name = some area')
    (h : ∃ a, scope.resolve r sheet = .ok a) : ∃ a, scope'.resolve r sheet = .ok a := by
  have hqualified : ∀ id, scope.qualified? sheet r.sheet? = some id →
      ∃ id', scope'.qualified? sheet r.sheet? = some id' := by
    intro id hid
    cases hr : r.sheet? with
    | none => exact ⟨sheet, rfl⟩
    | some name =>
      rw [hr] at hid
      exact hsheet name id hr hid
  obtain ⟨a, h⟩ := h
  cases r with
  | cell qualifier address =>
    obtain ⟨id, hid, hin, -⟩ := resolve_cell.mp h
    obtain ⟨id', hid'⟩ := hqualified id hid
    exact ⟨_, resolve_cell.mpr ⟨id', hid', by rwa [hsize.1, hsize.2], rfl⟩⟩
  | range qualifier first last =>
    obtain ⟨id, hid, hin, -⟩ := resolve_range.mp h
    obtain ⟨id', hid'⟩ := hqualified id hid
    exact ⟨_, resolve_range.mpr ⟨id', hid', by rwa [hsize.1, hsize.2], rfl⟩⟩
  | name n =>
    obtain ⟨area, hfound, -⟩ := resolve_name.mp h
    obtain ⟨area', hfound'⟩ := harea n area rfl hfound
    exact ⟨_, resolve_name.mpr ⟨area', hfound', rfl⟩⟩

end Scope

namespace DependencyGraph

/-- One reference more, behind those resolved so far. -/
def resolveNext (scope : Scope) (sheet : SheetId) (found : Except ErrorValue (List Area))
    (entry : String × Reference) : Except ErrorValue (List Area) :=
  match found with
  | .error e => .error e
  | .ok areas =>
    match scope.resolve entry.2 sheet with
    | .ok area => .ok (if area ∈ areas then areas else areas ++ [area])
    | .error problem => .error (problem.toError entry.1)

theorem resolveAll_eq_foldl (scope : Scope) (sheet : SheetId) (references : List (String × Reference)) :
    resolveAll scope sheet references = references.foldl (resolveNext scope sheet) (.ok []) := by
  unfold resolveAll
  congr 1

theorem foldl_resolveNext_error (scope : Scope) (sheet : SheetId) (e : ErrorValue)
    (references : List (String × Reference)) :
    references.foldl (resolveNext scope sheet) (.error e) = .error e := by
  induction references with
  | nil => rfl
  | cons entry references ih => exact ih

theorem resolveNext_ok {scope : Scope} {sheet : SheetId} {areas : List Area} {area : Area}
    {entry : String × Reference} (h : scope.resolve entry.2 sheet = .ok area) :
    resolveNext scope sheet (.ok areas) entry =
      .ok (if area ∈ areas then areas else areas ++ [area]) := by
  unfold resolveNext
  dsimp only
  rw [h]

theorem resolveNext_problem {scope : Scope} {sheet : SheetId} {areas : List Area}
    {problem : ResolutionProblem} {entry : String × Reference}
    (h : scope.resolve entry.2 sheet = .error problem) :
    resolveNext scope sheet (.ok areas) entry = .error (problem.toError entry.1) := by
  unfold resolveNext
  dsimp only
  rw [h]

/-- What resolving the references one after the other leaves, from any areas found before. -/
theorem foldl_resolveNext_ok {scope : Scope} {sheet : SheetId} {references : List (String × Reference)}
    {before areas : List Area}
    (h : references.foldl (resolveNext scope sheet) (.ok before) = .ok areas) :
    (∀ entry ∈ references, ∃ a ∈ areas, scope.resolve entry.2 sheet = .ok a) ∧
      ∀ a, a ∈ areas ↔ a ∈ before ∨ ∃ entry ∈ references, scope.resolve entry.2 sheet = .ok a := by
  induction references generalizing before with
  | nil =>
    cases h
    simp
  | cons entry references ih =>
    rw [List.foldl_cons] at h
    cases hr : scope.resolve entry.2 sheet with
    | error problem =>
      rw [resolveNext_problem hr, foldl_resolveNext_error] at h
      cases h
    | ok area =>
      rw [resolveNext_ok hr] at h
      obtain ⟨hall, hmem⟩ := ih h
      have hnow : ∀ a, a ∈ (if area ∈ before then before else before ++ [area]) ↔
          a ∈ before ∨ area = a := by
        intro a
        split
        · next hin =>
          constructor
          · exact Or.inl
          · rintro (ha | rfl)
            · exact ha
            · exact hin
        · simp [eq_comm]
      have hthis : ∀ a, (scope.resolve entry.2 sheet = .ok a ↔ area = a) := by
        intro a
        rw [hr]
        simp
      refine ⟨?_, fun a => ?_⟩
      · intro other hother
        rcases List.mem_cons.mp hother with rfl | hother
        · exact ⟨area, (hmem area).mpr (Or.inl ((hnow area).mpr (Or.inr rfl))), hr⟩
        · exact hall other hother
      · rw [hmem, hnow]
        simp only [List.mem_cons, exists_eq_or_imp, hthis, or_assoc]

/-- If every reference means an area, resolving succeeds. -/
theorem foldl_resolveNext_isOk {scope : Scope} {sheet : SheetId}
    {references : List (String × Reference)}
    (h : ∀ entry ∈ references, ∃ a, scope.resolve entry.2 sheet = .ok a) (before : List Area) :
    ∃ areas, references.foldl (resolveNext scope sheet) (.ok before) = .ok areas := by
  induction references generalizing before with
  | nil => exact ⟨before, rfl⟩
  | cons entry references ih =>
    obtain ⟨a, ha⟩ := h entry List.mem_cons_self
    rw [List.foldl_cons, resolveNext_ok ha]
    exact ih (fun other hother => h other (List.mem_cons_of_mem _ hother)) _

/-- **Success is described by the references.** What is returned are the areas that the references
mean, and each of them means one. -/
theorem resolveAll_eq_ok {scope : Scope} {sheet : SheetId} {references : List (String × Reference)}
    {areas : List Area} (h : resolveAll scope sheet references = .ok areas) :
    (∀ entry ∈ references, ∃ a ∈ areas, scope.resolve entry.2 sheet = .ok a) ∧
      ∀ a, a ∈ areas ↔ ∃ entry ∈ references, scope.resolve entry.2 sheet = .ok a := by
  rw [resolveAll_eq_foldl] at h
  obtain ⟨hall, hmem⟩ := foldl_resolveNext_ok h
  exact ⟨hall, fun a => by rw [hmem]; simp⟩

/-- The error of a formula whose references cannot all be resolved says what is wrong with one of them. -/
theorem exists_problem_of_resolveAll {scope : Scope} {sheet : SheetId} {references : List (String × Reference)}
    {e : ErrorValue} (h : resolveAll scope sheet references = .error e) :
    ∃ (problem : ResolutionProblem) (written : String), e = problem.toError written := by
  rw [resolveAll_eq_foldl] at h
  suffices hgen : ∀ found : Except ErrorValue (List Area),
      (∀ e, found = .error e → ∃ (problem : ResolutionProblem) (written : String), e = problem.toError written) →
      references.foldl (resolveNext scope sheet) found = .error e →
        ∃ (problem : ResolutionProblem) (written : String), e = problem.toError written by
    exact hgen (.ok []) (fun _ h => by cases h) h
  clear h
  induction references with
  | nil => exact fun found hfound h => hfound e h
  | cons entry references ih =>
    intro found hfound h
    rw [List.foldl_cons] at h
    refine ih _ ?_ h
    intro e' he'
    cases found with
    | error e'' =>
      apply hfound
      exact he'
    | ok areas =>
      cases hr : scope.resolve entry.2 sheet with
      | ok area =>
        rw [resolveNext_ok hr] at he'
        cases he'
      | error problem =>
        rw [resolveNext_problem hr] at he'
        cases he'
        exact ⟨problem, entry.1, rfl⟩

/-- So it is an invalid reference. -/
theorem kind_of_resolveAll_eq_error {scope : Scope} {sheet : SheetId}
    {references : List (String × Reference)} {e : ErrorValue}
    (h : resolveAll scope sheet references = .error e) : e.kind = .invalidReference := by
  obtain ⟨problem, written, rfl⟩ := exists_problem_of_resolveAll h
  cases problem <;> rfl

theorem resolveAll_isOk_iff (scope : Scope) (sheet : SheetId) (references : List (String × Reference)) :
    (∃ areas, resolveAll scope sheet references = .ok areas) ↔
      ∀ entry ∈ references, ∃ a, scope.resolve entry.2 sheet = .ok a := by
  constructor
  · rintro ⟨areas, h⟩ entry hentry
    obtain ⟨a, -, ha⟩ := (resolveAll_eq_ok h).1 entry hentry
    exact ⟨a, ha⟩
  · intro h
    rw [resolveAll_eq_foldl]
    exact foldl_resolveNext_isOk h []

/-- **The outcome depends on what the references mean only.** If references mean in one scope what others mean
in another one, one by one, then both are resolved to the same areas, or both fail. -/
theorem toOption_resolveAll_of_targets {scope scope' : Scope} {sheet : SheetId} {f : Reference → Reference}
    {references references' : List (String × Reference)}
    (htargets : references'.map Prod.snd = (references.map Prod.snd).map f)
    (h : ∀ r ∈ references.map Prod.snd, ∀ a, scope.resolve r sheet = .ok a ↔ scope'.resolve (f r) sheet = .ok a) :
    (resolveAll scope sheet references).toOption = (resolveAll scope' sheet references').toOption := by
  rw [resolveAll_eq_foldl, resolveAll_eq_foldl]
  suffices hgen : ∀ found : Except ErrorValue (List Area), ∀ found',
      found.toOption = found'.toOption →
      (references.foldl (resolveNext scope sheet) found).toOption =
        (references'.foldl (resolveNext scope' sheet) found').toOption by
    exact hgen _ _ rfl
  induction references generalizing references' with
  | nil =>
    rw [List.map_eq_nil_iff.mp htargets]
    exact fun found found' heq => heq
  | cons entry references ih =>
    cases references' with
    | nil => cases htargets
    | cons entry' references' =>
      intro found found' heq
      obtain ⟨hsame, hrest⟩ := List.cons.inj htargets
      rw [List.foldl_cons, List.foldl_cons]
      apply ih hrest fun r hr => h r (List.mem_cons_of_mem _ hr)
      have hentry := h entry.2 List.mem_cons_self
      rw [← hsame] at hentry
      cases found with
      | error e =>
        cases found' with
        | error e' => rfl
        | ok areas => cases heq
      | ok areas =>
        cases found' with
        | error e' => cases heq
        | ok areas' =>
          cases heq
          cases hr : scope.resolve entry.2 sheet with
          | ok area =>
            rw [resolveNext_ok hr, resolveNext_ok ((hentry area).mp hr)]
          | error problem =>
            cases hr' : scope'.resolve entry'.2 sheet with
            | ok area =>
              rw [(hentry area).mpr hr'] at hr
              cases hr
            | error problem' =>
              rw [resolveNext_problem hr, resolveNext_problem hr']
              rfl

/-- Scopes that agree on every reference resolve a formula to the same areas, or both fail. -/
theorem toOption_resolveAll_congr {scope scope' : Scope} {sheet : SheetId}
    {references : List (String × Reference)}
    (h : ∀ entry ∈ references, scope.AgreeOn scope' sheet entry.2) :
    (resolveAll scope sheet references).toOption = (resolveAll scope' sheet references).toOption := by
  refine toOption_resolveAll_of_targets (f := id) (List.map_id _).symm fun r hr => ?_
  obtain ⟨entry, hentry, rfl⟩ := List.mem_map.mp hr
  exact h entry hentry

end DependencyGraph

end Spreadsheet
