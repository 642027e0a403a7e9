import Spreadsheet.Proofs.Rewording
import Spreadsheet.Proofs.Substituting

/-!
# Retargeting: formulas whose references are changed one by one

A rename and an edit of lines both exchange references in the text of a formula for other references. What
this comes to is said once here, for any change of references:

* `Expr.retargeted_of_editReferences` — the new text is parsed to the old tree with the references changed
  (`Expr.mapReferences`);
* `touched_of_editReferences` — and differs from the old text in the operands that are exchanged only
  (`Exchanged`);
* `Engine.exists_formula_of_foldl` — of the cells, those have new texts for which there are any
  (`Formula.EditedTo`), and all keep their values.
-/

namespace Spreadsheet

open DependencyGraph

/-! ### References changed in a tree -/

namespace Expr

mutual

/-- The tree with every reference changed. -/
def mapReferences (f : Reference → Reference) : Expr → Expr
  | .literal span v => .literal span v
  | .reference span written r => .reference span written (f r)
  | .unary span op x => .unary span op (x.mapReferences f)
  | .binary span op x y => .binary span op (x.mapReferences f) (y.mapReferences f)
  | .call span name xs => .call span name (mapReferencesAll f xs)

/-- The trees of arguments with every reference changed. -/
def mapReferencesAll (f : Reference → Reference) : List Expr → List Expr
  | [] => []
  | x :: xs => x.mapReferences f :: mapReferencesAll f xs

end

/-- What a formula refers to, in the order of its references. -/
def targets (x : Expr) : List Reference := x.references.map Prod.snd

mutual

theorem targets_mapReferences (f : Reference → Reference) (x : Expr) :
    (x.mapReferences f).targets = x.targets.map f := by
  cases x with
  | literal _ _ => rfl
  | reference _ _ _ => rfl
  | unary _ _ x => exact targets_mapReferences f x
  | binary _ _ x y =>
    have hx := targets_mapReferences f x
    have hy := targets_mapReferences f y
    unfold targets at hx hy ⊢
    rw [mapReferences, references, references, List.map_append, List.map_append, List.map_append, hx, hy]
  | call _ _ xs =>
    unfold targets
    exact targetsAll_mapReferences f xs

theorem targetsAll_mapReferences (f : Reference → Reference) (xs : List Expr) :
    (referencesAll (mapReferencesAll f xs)).map Prod.snd = ((referencesAll xs).map Prod.snd).map f := by
  cases xs with
  | nil => rfl
  | cons x xs =>
    have hx := targets_mapReferences f x
    unfold targets at hx
    rw [mapReferencesAll, referencesAll, referencesAll, List.map_append, List.map_append, List.map_append, hx,
      targetsAll_mapReferences f xs]

end

mutual

theorem targets_bare (x : Expr) : x.bare.targets = x.targets := by
  cases x with
  | literal _ _ => rfl
  | reference _ _ _ => rfl
  | unary _ _ x => exact targets_bare x
  | binary _ _ x y =>
    have hx := targets_bare x
    have hy := targets_bare y
    unfold targets at hx hy ⊢
    rw [bare, references, references, List.map_append, List.map_append, hx, hy]
  | call _ _ xs =>
    unfold targets
    exact targetsAll_bareAll xs

theorem targetsAll_bareAll (xs : List Expr) :
    (referencesAll (bareAll xs)).map Prod.snd = (referencesAll xs).map Prod.snd := by
  cases xs with
  | nil => rfl
  | cons x xs =>
    have hx := targets_bare x
    unfold targets at hx
    rw [bareAll, referencesAll, referencesAll, List.map_append, List.map_append, hx, targetsAll_bareAll xs]

end

/-- Trees that are the same but for spans and spellings refer to the same. -/
theorem targets_eq_of_bare {x y : Expr} (h : x.bare = y.bare) : x.targets = y.targets := by
  rw [← targets_bare x, h, targets_bare y]

theorem mem_targets {x : Expr} {r : Reference} : r ∈ x.targets ↔ ∃ written, (written, r) ∈ x.references := by
  constructor
  · intro h
    obtain ⟨entry, hentry, rfl⟩ := List.mem_map.mp h
    exact ⟨entry.1, hentry⟩
  · rintro ⟨written, h⟩
    exact List.mem_map.mpr ⟨(written, r), h, rfl⟩

/-- Every reference of a formula that was read can be written. -/
theorem isWritable_of_mem_targets {l : Locale} {text : String} {x : Expr} (h : parse l text = .ok x)
    {r : Reference} (hr : r ∈ x.targets) : r.IsWritable := by
  obtain ⟨written, hentry⟩ := mem_targets.mp hr
  obtain ⟨ts, -, t, -, hwrites⟩ := written_of_parse h hentry
  exact Reference.isWritable_of_parse hwrites.2.2

mutual

theorem bare_mapReferences_eq_self {f : Reference → Reference} {x : Expr} (h : ∀ r ∈ x.targets, f r = r) :
    (x.mapReferences f).bare = x.bare := by
  cases x with
  | literal _ _ => rfl
  | reference _ _ r =>
    rw [mapReferences, h r List.mem_cons_self]
  | unary _ _ x => rw [mapReferences, bare, bare, bare_mapReferences_eq_self (x := x) h]
  | binary _ _ x y =>
    unfold targets at h
    rw [references, List.map_append] at h
    rw [mapReferences, bare, bare, bare_mapReferences_eq_self (x := x) fun r hr => h r (List.mem_append_left _ hr),
      bare_mapReferences_eq_self (x := y) fun r hr => h r (List.mem_append_right _ hr)]
  | call _ _ xs => rw [mapReferences, bare, bare, bareAll_mapReferences_eq_self h]

theorem bareAll_mapReferences_eq_self {f : Reference → Reference} {xs : List Expr}
    (h : ∀ r ∈ (referencesAll xs).map Prod.snd, f r = r) : bareAll (mapReferencesAll f xs) = bareAll xs := by
  cases xs with
  | nil => rfl
  | cons x xs =>
    rw [referencesAll, List.map_append] at h
    rw [mapReferencesAll, bareAll, bareAll,
      bare_mapReferences_eq_self (x := x) fun r hr => h r (List.mem_append_left _ hr),
      bareAll_mapReferences_eq_self fun r hr => h r (List.mem_append_right _ hr)]

end

/-! ### References changed in a text -/

/-- An edit writes the change of a reference, and says nothing about what does not change. -/
def Writes (edit : Reference → Option String) (f : Reference → Reference) (r : Reference) : Prop :=
  ((r.isPositional = true → edit r = none) ∧ f r = r) ∨
    (r.isPositional = true ∧ edit r = some (f r).text ∧ (f r).IsWritable)

theorem text_ne_lostReference {r : Reference} (h : r.IsWritable) : r.text ≠ lostReference := by
  intro heq
  have hread := Reference.parse_text h
  rw [heq] at hread
  have herror : (Reference.parse lostReference).isOk = false := by decide +kernel
  rw [hread] at herror
  cases herror

theorem bare_answered_of_writes {edit : Reference → Option String} {f : Reference → Reference} {r : Reference}
    (h : Writes edit f r) (span : Option Span) (written : String) :
    (answered edit span written r).bare = .reference none "" (f r) := by
  rcases h with ⟨hnone, hsame⟩ | ⟨hpositional, hedit, hwritable⟩
  · rw [bare_answered_of_none hnone, hsame]
    rfl
  · unfold answered
    rw [if_pos hpositional, hedit]
    dsimp only
    rw [if_neg (text_ne_lostReference hwritable), Reference.parse_text hwritable]
    rfl

mutual

theorem bare_substitute_of_writes {edit : Reference → Option String} {f : Reference → Reference} {x : Expr}
    (h : ∀ r ∈ x.targets, Writes edit f r) : (x.substitute edit).bare = (x.mapReferences f).bare := by
  cases x with
  | literal _ _ => rfl
  | reference _ _ r => exact bare_answered_of_writes (h r List.mem_cons_self) _ _
  | unary _ _ x => rw [substitute, mapReferences, bare, bare, bare_substitute_of_writes (x := x) h]
  | binary _ _ x y =>
    unfold targets at h
    rw [references, List.map_append] at h
    rw [substitute, mapReferences, bare, bare,
      bare_substitute_of_writes (x := x) fun r hr => h r (List.mem_append_left _ hr),
      bare_substitute_of_writes (x := y) fun r hr => h r (List.mem_append_right _ hr)]
  | call _ _ xs => rw [substitute, mapReferences, bare, bare, bareAll_substitute_of_writes h]

theorem bareAll_substitute_of_writes {edit : Reference → Option String} {f : Reference → Reference}
    {xs : List Expr} (h : ∀ r ∈ (referencesAll xs).map Prod.snd, Writes edit f r) :
    bareAll (substituteAll edit xs) = bareAll (mapReferencesAll f xs) := by
  cases xs with
  | nil => rfl
  | cons x xs =>
    rw [referencesAll, List.map_append] at h
    rw [substituteAll, mapReferencesAll, bareAll, bareAll,
      bare_substitute_of_writes (x := x) fun r hr => h r (List.mem_append_left _ hr),
      bareAll_substitute_of_writes fun r hr => h r (List.mem_append_right _ hr)]

end

/-- A formula that was read is in its own form again after an edit. -/
theorem exists_editReferences_of_parse {l : Locale} {text : String} {x : Expr} (h : parse l text = .ok x)
    (edit : Reference → Option String) : ∃ result, editReferences l text edit = .ok result := by
  unfold parse at h
  unfold editReferences
  cases htokens : tokenize l text with
  | error problem =>
    rw [htokens] at h
    cases h
  | ok ts =>
    dsimp only
    split
    · exact ⟨none, rfl⟩
    · exact ⟨_, rfl⟩

/-- **A formula whose references are changed in its text has the changed references in its tree**, and is
left as it is if none is changed. -/
theorem retargeted_of_editReferences {l : Locale} (hl : l.HasPlainSeparator) {text : String} {x : Expr}
    (hx : parse l text = .ok x) {edit : Reference → Option String} {f : Reference → Reference}
    (hedit : AnswersReferences edit) (hwrites : ∀ r ∈ x.targets, Writes edit f r) {result : Option String}
    (h : editReferences l text edit = .ok result) :
    ∃ y, parse l (result.getD text) = .ok y ∧ y.bare = (x.mapReferences f).bare := by
  cases result with
  | none =>
    refine ⟨x, hx, (bare_mapReferences_eq_self fun r hr => ?_).symm⟩
    rcases hwrites r hr with ⟨-, hsame⟩ | ⟨hpositional, hnew, -⟩
    · exact hsame
    · obtain ⟨written, hentry⟩ := mem_targets.mp hr
      obtain ⟨new, hsome⟩ := editReferences_of_parse hx hentry hpositional hnew
      rw [h] at hsome
      cases hsome
  | some new =>
    obtain ⟨y, hy, hsame⟩ := parse_of_editReferences hl hx hedit h
    exact ⟨y, hy, hsame.trans (bare_substitute_of_writes hwrites)⟩

end Expr

/-! ### The places of a text that change -/

/-- One text is another with some tokens exchanged: character by character the same, but for tokens at
whose place the other has what is allowed for them. Both texts are what is left from a byte onwards. -/
inductive Exchanged (allowed : Token → List Char → Prop) : Nat → List Char → List Char → Prop
  | done (offset : Nat) : Exchanged allowed offset [] []
  | keep {offset : Nat} (cs : List Char) {before after : List Char} :
      Exchanged allowed (offset + Text.byteLength cs) before after →
      Exchanged allowed offset (cs ++ before) (cs ++ after)
  | exchange {offset : Nat} (t : Token) (cs : List Char) {before after : List Char} :
      t.span = ⟨offset, offset + Text.byteLength t.text.toList⟩ → allowed t cs →
      Exchanged allowed t.span.stop before after →
      Exchanged allowed offset (t.text.toList ++ before) (cs ++ after)

theorem Exchanged.mono {allowed allowed' : Token → List Char → Prop} {offset : Nat} {before after : List Char}
    (h : Exchanged allowed offset before after) (hsub : ∀ t cs, allowed t cs → allowed' t cs) :
    Exchanged allowed' offset before after := by
  induction h with
  | done offset => exact .done offset
  | keep cs _ ih => exact .keep cs ih
  | exchange t cs hspan hallowed _ ih => exact .exchange t cs hspan (hsub t cs hallowed) ih

/-- The words of a text and the edited ones differ in the operands for which there is an answer. -/
theorem exchanged_edited (edit : Reference → Option String) (ws : List Word) (offset : Nat) :
    Exchanged (fun t cs => t ∈ Word.tokens offset ws ∧ ∃ text, t.answer? edit = some text ∧ cs = text.toList)
      offset (Word.sources ws) (Word.sources (ws.map (Word.edited edit))) := by
  induction ws generalizing offset with
  | nil => exact .done offset
  | cons w ws ih =>
    have hrest : Exchanged (fun t cs => t ∈ Word.tokens offset (w :: ws) ∧
        ∃ text, t.answer? edit = some text ∧ cs = text.toList) (offset + Text.byteLength w.source)
        (Word.sources ws) (Word.sources (ws.map (Word.edited edit))) :=
      (ih (offset + Text.byteLength w.source)).mono fun t cs h => ⟨List.mem_cons_of_mem _ h.1, h.2⟩
    rw [List.map_cons, Word.sources_cons, Word.sources_cons]
    cases hanswer : w.answer? edit with
    | none =>
      rw [Word.edited_of_none hanswer]
      exact .keep w.source hrest
    | some text =>
      have hsource : Text.byteLength w.source = Text.byteLength w.skipped + Text.byteLength w.chars :=
        Text.byteLength_append _ _
      rw [hsource, ← Nat.add_assoc] at hrest
      rw [Word.edited_of_some hanswer, Word.source, Word.source, List.append_assoc, List.append_assoc]
      refine .keep w.skipped ?_
      have hchars : (w.token offset).text.toList = w.chars := String.toList_ofList
      rw [← hchars]
      refine .exchange (w.token offset) text.toList ?_ ⟨List.mem_cons_self, text, ?_, rfl⟩ hrest
      · rw [hchars]
        rfl
      · rw [Word.answer?_token, hanswer]

/-- **An edit of references changes a formula in its operands only**, where it answers. -/
theorem touched_of_editReferences {l : Locale} (hl : l.HasPlainSeparator) {edit : Reference → Option String}
    {text new : String} (h : editReferences l text edit = .ok (some new)) :
    ∃ ts, tokenize l text = .ok ts ∧
      Exchanged (fun t cs => t ∈ ts ∧ ∃ r, t.Writes r ∧ r.isPositional = true ∧
        edit r = some (String.ofList cs)) 0 text.toList new.toList := by
  obtain ⟨cs, ts, rfl, htokens⟩ := exists_of_editReferences h
  obtain ⟨ws, hsources, -, -, rfl⟩ := (tokenize_eq_ok_iff hl).mp htokens
  refine ⟨_, htokens, ?_⟩
  rw [editReferences_of_words htokens hsources] at h
  split at h
  · cases h
  · cases h
    rw [String.toList_ofList, String.toList_ofList, ← hsources]
    refine .keep ['='] ((exchanged_edited edit ws 1).mono fun t cs hanswered => ?_)
    obtain ⟨ht, answer, hanswer, rfl⟩ := hanswered
    obtain ⟨r, hr, hedit⟩ := Option.bind_eq_some_iff.mp hanswer
    rw [String.ofList_toList]
    exact ⟨ht, r, (Token.writes_of_positional? hr).1, (Token.writes_of_positional? hr).2, hedit⟩

/-! ### What changed references mean -/

/-- Formulas whose references mean the same one by one read the same areas. -/
theorem resolveAll_eq_of_targets {scope scope' : Scope} {sheet : SheetId} {f : Reference → Reference}
    {references references' : List (String × Reference)}
    (htargets : references'.map Prod.snd = (references.map Prod.snd).map f)
    (h : ∀ r ∈ references.map Prod.snd, ∃ a, scope.resolve r sheet = .ok a ∧ scope'.resolve (f r) sheet = .ok a) :
    resolveAll scope' sheet references' = resolveAll scope sheet references := by
  obtain ⟨areas, hareas⟩ := (resolveAll_isOk_iff scope sheet references).mpr fun entry hentry => by
    obtain ⟨a, ha, -⟩ := h entry.2 (List.mem_map.mpr ⟨entry, hentry, rfl⟩)
    exact ⟨a, ha⟩
  have hsame := toOption_resolveAll_of_targets htargets fun r hr => by
    obtain ⟨a, ha, ha'⟩ := h r hr
    intro b
    rw [ha, ha']
  rw [hareas] at hsame ⊢
  cases hareas' : resolveAll scope' sheet references' with
  | error problem =>
    rw [hareas'] at hsame
    cases hsame
  | ok areas' =>
    rw [hareas'] at hsame
    cases hsame
    rfl

/-- The name that is looked up for a reference. -/
def Reference.name? : Reference → Option String
  | .name n => some n
  | _ => none

theorem namesOf_eq_filterMap (references : List (String × Reference)) :
    namesOf references = (references.map Prod.snd).filterMap Reference.name? := by
  rw [List.filterMap_map]
  refine List.filterMap_congr fun entry _ => ?_
  obtain ⟨written, r⟩ := entry
  cases r <;> rfl

/-- What is recorded of a formula depends on what its references mean and on the names among them. -/
theorem linkOf_eq_of_targets {scope scope' : Scope} {sheet : SheetId} {f : Reference → Reference} {x y : Expr}
    (htargets : y.targets = x.targets.map f) (hnames : ∀ r ∈ x.targets, (f r).name? = r.name?)
    (h : ∀ r ∈ x.targets, ∀ a, scope.resolve r sheet = .ok a ↔ scope'.resolve (f r) sheet = .ok a) :
    linkOf scope' sheet y = linkOf scope sheet x := by
  have hsame : namesOf y.references = namesOf x.references := by
    rw [namesOf_eq_filterMap, namesOf_eq_filterMap]
    show y.targets.filterMap Reference.name? = x.targets.filterMap Reference.name?
    rw [htargets, List.filterMap_map]
    exact List.filterMap_congr hnames
  unfold linkOf lookedUp
  rw [hsame, toOption_resolveAll_of_targets htargets h]

/-! ### Cells whose texts change -/

theorem Cell.core_replaceFormula (c : Cell) (text : String) (parsed : Except ErrorValue Expr) :
    (c.replaceFormula text parsed).core = c.core.replaceFormula text parsed := by
  obtain ⟨content, value, flags⟩ := c
  cases content <;> rfl

theorem Cell.replaceFormula_replaceFormula (c : Cell) (text : String) (parsed : Except ErrorValue Expr) :
    (c.replaceFormula text parsed).replaceFormula text parsed = c.replaceFormula text parsed := by
  obtain ⟨content, value, flags⟩ := c
  cases content <;> rfl

/-- The formula of a cell whose text was replaced. -/
theorem Cell.content_replaceFormula {c : Cell} {f : Formula} (h : c.content = .formula f) (text : String)
    (parsed : Except ErrorValue Expr) : (c.replaceFormula text parsed).content = .formula ⟨text, some parsed, none⟩ := by
  unfold replaceFormula
  rw [h]

theorem Cell.value_replaceFormula (c : Cell) (text : String) (parsed : Except ErrorValue Expr) :
    (c.replaceFormula text parsed).value = c.value := by
  obtain ⟨content, value, flags⟩ := c
  cases content <;> rfl

/-- A cell that is the same up to marks and link errors has the same formula up to its link error. -/
theorem Cell.exists_formula_of_core {c c' : Cell} (h : c'.core = c.core) {f : Formula}
    (hf : c.content = .formula f) : ∃ problem, c'.content = .formula { f with linkError := problem } := by
  obtain ⟨content, value, flags⟩ := c
  obtain rfl : content = .formula f := hf
  obtain ⟨content', value', flags'⟩ := c'
  cases content' with
  | constant v => cases congrArg Cell.content h
  | formula f' =>
    have hformula : ({ f' with linkError := none } : Formula) = { f with linkError := none } :=
      CellContent.formula.inj (congrArg Cell.content h)
    refine ⟨f'.linkError, congrArg CellContent.formula ?_⟩
    rw [Formula.mk.injEq] at hformula ⊢
    exact ⟨hformula.1, hformula.2.1, rfl⟩

theorem Cell.content_of_core {c c' : Cell} (h : c'.core = c.core) {v : Value} (hv : c.content = .constant v) :
    c'.content = .constant v := by
  obtain ⟨content, value, flags⟩ := c
  obtain rfl : content = .constant v := hv
  obtain ⟨content', value', flags'⟩ := c'
  cases content' with
  | constant v' => exact congrArg Cell.content h
  | formula f' => cases congrArg Cell.content h

/-- A formula after its references were edited, link errors aside: it was read from the new text if there is
one, and else is what it was. -/
def Formula.EditedTo (l : Locale) (read : String → Except ErrorValue Expr) (edit : Reference → Option String)
    (f f' : Formula) : Prop :=
  (f'.text = f.text ∧ f'.parsed = f.parsed ∧ ∀ new, editReferences l f.text edit ≠ .ok (some new)) ∨
    (editReferences l f.text edit = .ok (some f'.text) ∧ f'.parsed = some (read f'.text))

namespace Engine

/-- **A formula whose references were edited has the changed references in its tree.** -/
theorem exists_tree_of_editedTo {e : Engine} (hlocale : e.settings.locale.IsUnambiguous) {f f' : Formula}
    {x : Expr} (hread : e.readFormula f.text = .ok x) (hx : f.parsed = some (.ok x))
    {edit : Reference → Option String} {g : Reference → Reference} (hedit : AnswersReferences edit)
    (hwrites : ∀ r ∈ x.targets, Expr.Writes edit g r)
    (h : f.EditedTo e.settings.locale e.readFormula edit f') :
    ∃ y, f'.parsed = some (.ok y) ∧ y.bare = (x.mapReferences g).bare := by
  have hparse := readFormula_eq_ok.mp hread
  have hseparator : e.settings.locale.HasPlainSeparator := by
    cases htokens : tokenize e.settings.locale f.text with
    | error problem =>
      unfold Expr.parse at hparse
      rw [htokens] at hparse
      cases hparse
    | ok ts => exact hlocale.hasPlainSeparator htokens
  obtain ⟨result, hresult⟩ := Expr.exists_editReferences_of_parse hparse edit
  obtain ⟨y, hy, hsame⟩ := Expr.retargeted_of_editReferences hseparator hparse hedit hwrites hresult
  refine ⟨y, ?_, hsame⟩
  rcases h with ⟨-, hparsed, hnone⟩ | ⟨hedited, hparsed⟩
  · cases result with
    | some new => exact absurd hresult (hnone new)
    | none =>
      rw [Option.getD_none, hparse] at hy
      cases hy
      exact hparsed.trans hx
  · rw [hresult] at hedited
    cases hedited
    rw [hparsed]
    exact congrArg some (readFormula_eq_ok.mpr hy)

theorem core?_replaceFormula (e : Engine) (p : Position) (text : String) (q : Position) :
    (e.replaceFormula p text).workbook.core? q =
      if q = p then (e.workbook.core? p).map fun c => c.replaceFormula text (e.readFormula text)
      else e.workbook.core? q := by
  unfold Workbook.core? replaceFormula
  rw [Workbook.cell?_modifyCell]
  split
  · rw [Option.map_map, Option.map_map]
    exact congrArg (fun g => Option.map g _) (funext fun c => c.core_replaceFormula text _)
  · rfl

/-- Steps that replace the texts of formulas, whatever else they do to the graph and to link errors. -/
def Rewords (step : Engine → Position × String → Engine) : Prop :=
  ∀ e entry, (step e entry).settings = e.settings ∧
    ∀ q, (step e entry).workbook.core? q = (e.replaceFormula entry.1 entry.2).workbook.core? q

theorem rewords_replaceFormula : Rewords fun e entry => e.replaceFormula entry.1 entry.2 :=
  fun _ _ => ⟨rfl, fun _ => rfl⟩

theorem rewords_relinked : Rewords fun e entry => (e.replaceFormula entry.1 entry.2).relink entry.1 :=
  fun _ _ => ⟨(upToLinks_relink _ _).settings_eq, fun q => (upToLinks_relink _ _).core?_eq q⟩

section Rewords

variable {step : Engine → Position × String → Engine} (hstep : Rewords step)
include hstep

/-- A position that is not among those with new texts keeps what it has. -/
theorem core?_foldl_of_not_mem {edits : List (Position × String)} {q : Position}
    (hq : q ∉ edits.map Prod.fst) (e : Engine) :
    (edits.foldl step e).workbook.core? q = e.workbook.core? q := by
  refine foldl_keeps (P := fun e' : Engine => e'.workbook.core? q = e.workbook.core? q)
    (fun e' entry hentry he' => ?_) rfl
  rw [(hstep e' entry).2, core?_replaceFormula, if_neg, he']
  rintro rfl
  exact hq (List.mem_map.mpr ⟨entry, hentry, rfl⟩)

/-- **A position for which there is a new text gets it**, if there is no other one for it. -/
theorem core?_foldl_of_mem {edits : List (Position × String)} {q : Position} {text : String}
    (hq : (q, text) ∈ edits) (hunique : ∀ text', (q, text') ∈ edits → text' = text) (e : Engine) :
    (edits.foldl step e).workbook.core? q =
      (e.workbook.core? q).map fun c => c.replaceFormula text (e.readFormula text) := by
  induction edits generalizing e with
  | nil => cases hq
  | cons entry edits ih =>
    have hread : (step e entry).readFormula = e.readFormula := readFormula_congr (hstep e entry).1
    rw [List.foldl_cons]
    by_cases hrest : (q, text) ∈ edits
    · rw [ih hrest (fun text' h => hunique text' (List.mem_cons_of_mem _ h)), hread, (hstep e entry).2,
        core?_replaceFormula]
      split
      · next heq =>
        -- The same text twice is the same as once.
        have htext : entry.2 = text := hunique entry.2 (by rw [heq]; exact List.mem_cons_self)
        rw [htext, heq, Option.map_map]
        exact congrArg (fun g => Option.map g _) (funext fun c => c.replaceFormula_replaceFormula text _)
      · rfl
    · obtain rfl := (List.mem_cons.mp hq).resolve_right hrest
      rw [core?_foldl_of_not_mem hstep, (hstep e (q, text)).2, core?_replaceFormula, if_pos rfl]
      intro hmem
      obtain ⟨⟨_, text'⟩, hentry, rfl⟩ := List.mem_map.mp hmem
      obtain rfl := hunique text' (List.mem_cons_of_mem _ hentry)
      exact hrest hentry

/-- A formula for which there is a new text exactly if an edit of its references gives one is edited. -/
theorem exists_formula_of_foldl {edits : List (Position × String)} {e : Engine} {q : Position} {c c' : Cell}
    {f : Formula} (hc : e.workbook.core? q = some c.core) (hf : c.content = .formula f)
    {edit : Reference → Option String}
    (hedits : ∀ new, (q, new) ∈ edits ↔ editReferences e.settings.locale f.text edit = .ok (some new))
    (hc' : (edits.foldl step e).workbook.core? q = some c'.core) :
    ∃ f', c'.content = .formula f' ∧ f.EditedTo e.settings.locale e.readFormula edit f' := by
  by_cases hedited : ∃ new, editReferences e.settings.locale f.text edit = .ok (some new)
  · obtain ⟨new, hnew⟩ := hedited
    have hunique : ∀ new', (q, new') ∈ edits → new' = new := by
      intro new' hnew'
      rw [(hedits new').mp hnew'] at hnew
      exact Option.some.inj (Except.ok.inj hnew)
    rw [core?_foldl_of_mem hstep ((hedits new).mpr hnew) hunique, hc] at hc'
    have hsame := (Option.some.inj hc').symm.trans (c.core_replaceFormula new _).symm
    obtain ⟨problem, hf'⟩ := Cell.exists_formula_of_core hsame (Cell.content_replaceFormula hf new _)
    exact ⟨_, hf', Or.inr ⟨hnew, rfl⟩⟩
  · have hnone : ∀ new, editReferences e.settings.locale f.text edit ≠ .ok (some new) :=
      fun new hnew => hedited ⟨new, hnew⟩
    have hq : q ∉ edits.map Prod.fst := by
      intro hmem
      obtain ⟨⟨_, new⟩, hentry, rfl⟩ := List.mem_map.mp hmem
      exact hnone new ((hedits new).mp hentry)
    rw [core?_foldl_of_not_mem hstep hq, hc] at hc'
    obtain ⟨problem, hf'⟩ := Cell.exists_formula_of_core (Option.some.inj hc').symm hf
    exact ⟨_, hf', Or.inl ⟨rfl, rfl, hnone⟩⟩

/-- New texts change no value. -/
theorem value_foldl_rewords (edits : List (Position × String)) (e : Engine) (q : Position) :
    (edits.foldl step e).workbook.value q = e.workbook.value q := by
  refine foldl_unchanged (f := fun e : Engine => e.workbook.value q) (fun e entry => ?_) edits e
  rw [Workbook.value_eq_core, (hstep e entry).2, core?_replaceFormula, Workbook.value_eq_core e.workbook]
  split
  · next heq =>
    rw [Option.map_map, ← heq]
    exact congrArg (fun v => Option.getD v _)
      (congrArg (fun g => Option.map g _) (funext fun c => c.value_replaceFormula entry.2 _))
  · rfl

end Rewords

/-- The new texts of an edit are those of the formulas whose texts it changes. -/
theorem mem_editedFormulas_iff {e : Engine} (hw : e.workbook.WellFormed)
    {edit : Position → Reference → Option String} {p : Position} {new : String} :
    (p, new) ∈ e.editedFormulas edit ↔ ∃ c text, e.workbook.cell? p = some c ∧ c.formulaText? = some text ∧
      editReferences e.settings.locale text (edit p) = .ok (some new) := by
  unfold editedFormulas
  rw [List.mem_filterMap]
  constructor
  · rintro ⟨⟨q, text⟩, hmem, hnew⟩
    dsimp only at hnew
    split at hnew
    · next text' hedited =>
      cases hnew
      obtain ⟨c, hc, htext⟩ := (Workbook.mem_formulaTexts hw).mp hmem
      exact ⟨c, text, hc, htext, hedited⟩
    · cases hnew
  · rintro ⟨c, text, hc, htext, hedited⟩
    refine ⟨(p, text), (Workbook.mem_formulaTexts hw).mpr ⟨c, hc, htext⟩, ?_⟩
    dsimp only
    rw [hedited]

/-- There is a new text for a formula exactly if the edit of its references gives one. -/
theorem mem_editedFormulas_of_formula {e : Engine} (hw : e.workbook.WellFormed)
    {edit : Position → Reference → Option String} {p : Position} {c : Cell} (hc : e.workbook.cell? p = some c)
    {f : Formula} (hf : c.content = .formula f) (new : String) :
    (p, new) ∈ e.editedFormulas edit ↔
      editReferences e.settings.locale f.text (edit p) = .ok (some new) := by
  have htext : c.formulaText? = some f.text := congrArg (Option.map Formula.text) (Cell.formula?_eq_some.mpr hf)
  rw [mem_editedFormulas_iff hw]
  constructor
  · rintro ⟨c', text, hc', htext', hnew⟩
    rw [hc] at hc'
    cases hc'
    rw [htext] at htext'
    cases htext'
    exact hnew
  · exact fun hnew => ⟨c, f.text, hc, htext, hnew⟩

end Engine

end Spreadsheet
