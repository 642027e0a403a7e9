import Spreadsheet.Formula.Expr.Parser
import Spreadsheet.Edit.Substitution

/-!
# Mentions: the leaves of a formula stand in its text

An edit of references works on tokens, and the engine on trees. Each leaf of a tree was read from a token of its
own (`Expr.stands_of_parse`), and so was each reference (`Expr.written_of_parse`). So an edit that changes a
reference by position changes the text of every formula that has it (`editReferences_of_parse`).

The readers of expressions call each other, and so do the lemmas about them.
-/

namespace Spreadsheet

/-- A token that is written for a reference. -/
def Token.Writes (t : Token) (r : Reference) : Prop :=
  t.kind = .operand ∧ t.role = .range ∧ Reference.parse t.text = .ok r

namespace Expr

mutual

/-- The literals and references of a tree, in the order in which they are evaluated. -/
def leaves : Expr → List Expr
  | .literal span v => [.literal span v]
  | .reference span written r => [.reference span written r]
  | .unary _ _ x => x.leaves
  | .binary _ _ l r => l.leaves ++ r.leaves
  | .call _ _ xs => leavesAll xs

/-- The literals and references of arguments, in order. -/
def leavesAll : List Expr → List Expr
  | [] => []
  | x :: xs => x.leaves ++ leavesAll xs

end

mutual

/-- A reference of a tree is one of its leaves. -/
theorem exists_leaf_of_mem_references {entry : String × Reference} :
    (x : Expr) → entry ∈ x.references → ∃ span, reference span entry.1 entry.2 ∈ x.leaves
  | .literal _ _, h => absurd h List.not_mem_nil
  | .reference span written r, h => by
    rw [List.mem_singleton.mp h]
    exact ⟨span, List.mem_cons_self⟩
  | .unary _ _ x, h => exists_leaf_of_mem_references x h
  | .binary _ _ l r, h => by
    rcases List.mem_append.mp h with hl | hr
    · obtain ⟨span, hspan⟩ := exists_leaf_of_mem_references l hl
      exact ⟨span, List.mem_append_left _ hspan⟩
    · obtain ⟨span, hspan⟩ := exists_leaf_of_mem_references r hr
      exact ⟨span, List.mem_append_right _ hspan⟩
  | .call _ _ xs, h => exists_leaf_of_mem_referencesAll xs h

/-- The same of a reference of arguments. -/
theorem exists_leaf_of_mem_referencesAll {entry : String × Reference} :
    (xs : List Expr) → entry ∈ referencesAll xs → ∃ span, reference span entry.1 entry.2 ∈ leavesAll xs
  | [], h => absurd h List.not_mem_nil
  | x :: xs, h => by
    rcases List.mem_append.mp h with hx | hxs
    · obtain ⟨span, hspan⟩ := exists_leaf_of_mem_references x hx
      exact ⟨span, List.mem_append_left _ hspan⟩
    · obtain ⟨span, hspan⟩ := exists_leaf_of_mem_referencesAll xs hxs
      exact ⟨span, List.mem_append_right _ hspan⟩

end

end Expr

/-- A token that stands for a leaf. -/
def Token.StandsFor (l : Locale) (t : Token) (x : Expr) : Prop :=
  t.kind = .operand ∧ Expr.ofOperand l t = .ok x

/-- Leaves that were known before, or for which tokens stand that have been read; tokens remain. No token stands
for an argument that is left out. -/
structure Stems (l : Locale) (known : List Expr) (ts : List Token) (found : List Expr) (rest : List Token) :
    Prop where
  written : ∀ x ∈ found, x ∈ known ∨ x = Expr.omitted ∨ ∃ t ∈ ts, t.StandsFor l x
  remain : ∀ t ∈ rest, t ∈ ts

namespace Stems

variable {l : Locale} {known found found' : List Expr} {ts ts' rest rest' : List Token}

/-- Nothing but what is known stems from any tokens. -/
theorem of_known (h : ∀ x ∈ found, x ∈ known) (hrest : ∀ t ∈ rest, t ∈ ts) : Stems l known ts found rest :=
  ⟨fun x hx => Or.inl (h x hx), hrest⟩

/-- What was read from some of the tokens was read from all of them. -/
theorem of_subset (h : Stems l known ts found rest) (hsub : ∀ t ∈ ts, t ∈ ts') :
    Stems l known ts' found rest := by
  refine ⟨fun x hx => (h.written x hx).imp_right (Or.imp_right ?_), fun t ht => hsub t (h.remain t ht)⟩
  rintro ⟨t, ht, hstands⟩
  exact ⟨t, hsub t ht, hstands⟩

theorem cons (t : Token) (h : Stems l known ts found rest) : Stems l known (t :: ts) found rest :=
  h.of_subset fun _ => List.mem_cons_of_mem t

/-- What is read next is read from what remains. -/
theorem trans (h : Stems l known ts found rest) (h' : Stems l found rest found' rest') :
    Stems l known ts found' rest' := by
  refine ⟨fun x hx => ?_, fun t ht => h.remain t (h'.remain t ht)⟩
  rcases h'.written x hx with hfound | homitted | ⟨t, ht, hstands⟩
  · exact h.written x hfound
  · exact Or.inr (Or.inl homitted)
  · exact Or.inr (Or.inr ⟨t, h.remain t ht, hstands⟩)

/-- What was known before may be put in front. -/
theorem append (h : Stems l [] ts found rest) : Stems l known ts (known ++ found) rest := by
  refine ⟨fun x hx => ?_, h.remain⟩
  rcases List.mem_append.mp hx with hknown | hfound
  · exact Or.inl hknown
  · exact Or.inr ((h.written x hfound).resolve_left List.not_mem_nil)

/-- An argument that is left out stems from nothing. -/
theorem of_omitted (h : Stems l Expr.omitted.leaves ts found rest) : Stems l [] ts found rest := by
  refine ⟨fun x hx => (h.written x hx).elim (fun hknown => Or.inr (Or.inl ?_)) Or.inr, h.remain⟩
  exact List.mem_singleton.mp hknown

end Stems

namespace Expr

/-! ### From tokens to trees -/

/-- What an operand stands for is a leaf by itself. -/
theorem leaves_of_ofOperand {l : Locale} {t : Token} {x : Expr} (h : ofOperand l t = .ok x) : x.leaves = [x] := by
  unfold ofOperand at h
  split at h
  · split at h
    · cases h
      rfl
    · cases h
  · cases h
    rfl
  · cases h
    rfl
  · split at h
    · cases h
      rfl
    · cases h
  · split at h
    · cases h
      rfl
    · cases h
  · cases h

theorem stems_ofOperand {l : Locale} {t : Token} {x : Expr} (h : ofOperand l t = .ok x)
    (hkind : t.kind = .operand) (rest : List Token) : Stems l [] (t :: rest) x.leaves rest := by
  refine ⟨fun y hy => Or.inr (Or.inr ⟨t, List.mem_cons_self, hkind, ?_⟩), fun _ => List.mem_cons_of_mem t⟩
  rw [leaves_of_ofOperand h] at hy
  rw [List.mem_singleton.mp hy]
  exact h

theorem leaves_applyPostfixes (x : Expr) (ts : List Token) :
    (applyPostfixes x ts).1.leaves = x.leaves ∧ ∀ t ∈ (applyPostfixes x ts).2, t ∈ ts := by
  induction ts generalizing x with
  | nil => exact ⟨rfl, fun _ => id⟩
  | cons t ts ih =>
    unfold applyPostfixes
    split
    · obtain ⟨hleaves, hrest⟩ := ih (.unary (some t.span) (.ofSymbol t.text) x)
      exact ⟨hleaves, fun t' ht' => List.mem_cons_of_mem t (hrest t' ht')⟩
    · exact ⟨rfl, fun _ => id⟩

mutual

theorem stems_readBinary {r : Reading} {least : Nat} {ts : List Token} {x : Expr} {rest : List Token}
    {hlen : rest.length < ts.length} (h : readBinary r least ts = .ok (x, ⟨rest, hlen⟩)) :
    Stems r.locale [] ts x.leaves rest := by
  unfold readBinary at h
  split at h
  · cases h
  · next left rest' hlen' hleft =>
    split at h
    · cases h
    · next x' rest'' hlen'' hclimb =>
      cases h
      exact (stems_readSigned hleft).trans (stems_climb hclimb)
termination_by (ts.length, 4)

theorem stems_climb {r : Reading} {least : Nat} {left : Expr} {ts : List Token} {x : Expr}
    {rest : List Token} {hlen : rest.length ≤ ts.length}
    (h : climb r least left ts = .ok (x, ⟨rest, hlen⟩)) : Stems r.locale left.leaves ts x.leaves rest := by
  match ts with
  | [] =>
    unfold climb at h
    cases h
    exact .of_known (fun _ => id) fun _ => id
  | t :: rest₁ =>
    unfold climb at h
    dsimp only at h
    split at h
    · cases h
      exact .of_known (fun _ => id) fun _ => id
    · split at h
      · cases h
      · next right rest₂ hlen₂ hright =>
        split at h
        · cases h
        · next x' rest₃ hlen₃ hclimb =>
          cases h
          have hstems : Stems r.locale left.leaves rest₁ (left.leaves ++ right.leaves) rest₂ :=
            (stems_readBinary hright).append
          exact (hstems.trans (stems_climb hclimb)).cons t
termination_by (ts.length, 0)

theorem stems_readSigned {r : Reading} {ts : List Token} {x : Expr} {rest : List Token}
    {hlen : rest.length < ts.length} (h : readSigned r ts = .ok (x, ⟨rest, hlen⟩)) :
    Stems r.locale [] ts x.leaves rest := by
  match ts with
  | t :: rest₁ =>
    unfold readSigned at h
    split at h
    · split at h
      · cases h
      · next operand rest₂ hlen₂ hoperand =>
        cases h
        have hstems : Stems r.locale [] rest₁ operand.leaves rest := stems_readSigned hoperand
        exact hstems.cons t
    · exact stems_readPostfixed h
  | [] =>
    unfold readSigned at h
    exact stems_readPostfixed h
termination_by (ts.length, 3)

theorem stems_readPostfixed {r : Reading} {ts : List Token} {x : Expr} {rest : List Token}
    {hlen : rest.length < ts.length} (h : readPostfixed r ts = .ok (x, ⟨rest, hlen⟩)) :
    Stems r.locale [] ts x.leaves rest := by
  unfold readPostfixed at h
  split at h
  · cases h
  · next operand rest₁ hlen₁ hoperand =>
    cases h
    obtain ⟨hleaves, hrest⟩ := leaves_applyPostfixes operand rest₁
    rw [hleaves]
    exact (stems_readPrimary hoperand).trans (.of_known (fun _ => id) hrest)
termination_by (ts.length, 2)

theorem stems_readPrimary {r : Reading} {ts : List Token} {x : Expr} {rest : List Token}
    {hlen : rest.length < ts.length} (h : readPrimary r ts = .ok (x, ⟨rest, hlen⟩)) :
    Stems r.locale [] ts x.leaves rest := by
  match ts with
  | [] =>
    unfold readPrimary at h
    cases h
  | t :: rest₁ =>
    unfold readPrimary at h
    split at h
    · next hkind =>
      split at h
      · cases h
      · next x' hoperand =>
        cases h
        exact stems_ofOperand hoperand hkind rest
    · split at h
      · split at h
        · cases h
          exact .of_known (fun _ => id) fun t' ht' =>
            List.mem_cons_of_mem t (List.mem_of_mem_tail ht')
        · split at h
          · cases h
          · next xs rest₂ hlen₂ harguments =>
            cases h
            have hstems : Stems r.locale [] rest₁ (leavesAll xs) rest := stems_readArguments harguments
            exact hstems.cons t
      · split at h
        · split at h
          · cases h
          · next inner rest₂ hlen₂ hinner =>
            split at h
            · cases h
            · next c rest₃ hlen₃ =>
              split at h
              · cases h
                have hstems := Stems.cons t (stems_readBinary hinner)
                exact ⟨hstems.written, fun t' ht' => hstems.remain t' (List.mem_cons_of_mem c ht')⟩
              · cases h
        · cases h
termination_by (ts.length, 1)

theorem stems_readArguments {r : Reading} {ts : List Token} {xs : List Expr} {rest : List Token}
    {hlen : rest.length < ts.length} (h : readArguments r ts = .ok (xs, ⟨rest, hlen⟩)) :
    Stems r.locale [] ts (leavesAll xs) rest := by
  unfold readArguments at h
  split at h
  · exact (stems_afterArgument h).of_omitted
  · split at h
    · cases h
    · next x rest₁ hlen₁ hargument =>
      exact (stems_readBinary hargument).trans (stems_afterArgument h)
termination_by (ts.length, 6)

theorem stems_afterArgument {r : Reading} {x : Expr} {ts rest : List Token}
    {hle : rest.length ≤ ts.length} {xs : List Expr} {rest' : List Token}
    {hlen : rest'.length < ts.length} (h : afterArgument r x ts rest hle = .ok (xs, ⟨rest', hlen⟩)) :
    Stems r.locale x.leaves rest (leavesAll xs) rest' := by
  match rest with
  | [] =>
    unfold afterArgument at h
    cases h
  | t :: rest₁ =>
    unfold afterArgument at h
    split at h
    · split at h
      · cases h
      · next ys rest₂ hlen₂ harguments =>
        cases h
        have hstems : Stems r.locale x.leaves rest₁ (x.leaves ++ leavesAll ys) rest' :=
          (stems_readArguments harguments).append
        exact hstems.cons t
    · split at h
      · cases h
        refine .of_known (fun y hy => ?_) fun _ => List.mem_cons_of_mem t
        simpa [leavesAll] using hy
      · cases h
termination_by (rest.length, 5)

end

/-- **Each leaf of a formula is written by a token of its text**, or is a value that is no error. -/
theorem stands_of_parse {l : Locale} {text : String} {x y : Expr} (h : parse l text = .ok x) (hy : y ∈ x.leaves) :
    (∃ span v, y = .literal span v ∧ v.isError = false) ∨
      ∃ ts, tokenize l text = .ok ts ∧ ∃ t ∈ ts, t.StandsFor l y := by
  unfold parse at h
  split at h
  · cases h
  · next tokens htokens =>
    unfold ofTokens at h
    dsimp only at h
    split at h
    · cases h
    · next t rest hfilter =>
      split at h
      · cases h
        exact Or.inl ⟨_, _, List.mem_singleton.mp hy, rfl⟩
      · split at h
        · cases h
        · next x' hlen hread =>
          cases h
          rcases (stems_readBinary hread).written y hy with hknown | homitted | ⟨t', ht', hstands⟩
          · exact absurd hknown List.not_mem_nil
          · exact Or.inl ⟨_, _, homitted, rfl⟩
          · exact Or.inr ⟨tokens, htokens, t', (List.mem_filter.mp ht').1, hstands⟩
        · cases h

/-- What stands for a reference is written for it. -/
theorem writes_of_standsFor {l : Locale} {t : Token} {span : Option Span} {written : String} {r : Reference}
    (h : t.StandsFor l (.reference span written r)) : t.Writes r := by
  obtain ⟨hkind, hoperand⟩ := h
  unfold ofOperand at hoperand
  split at hoperand
  · split at hoperand <;> cases hoperand
  · cases hoperand
  · cases hoperand
  · split at hoperand <;> cases hoperand
  · next hrole =>
    split at hoperand
    · next hparse =>
      cases hoperand
      exact ⟨hkind, hrole, hparse⟩
    · cases hoperand
  · cases hoperand

/-- **Each reference of a formula is written by a token of its text.** -/
theorem written_of_parse {locale : Locale} {text : String} {x : Expr} (h : parse locale text = .ok x)
    {entry : String × Reference} (hentry : entry ∈ x.references) :
    ∃ ts, tokenize locale text = .ok ts ∧ ∃ t ∈ ts, t.Writes entry.2 := by
  obtain ⟨span, hleaf⟩ := exists_leaf_of_mem_references x hentry
  rcases stands_of_parse h hleaf with ⟨_, _, hliteral, -⟩ | ⟨ts, hts, t, ht, hstands⟩
  · cases hliteral
  · exact ⟨ts, hts, t, ht, writes_of_standsFor hstands⟩

end Expr

/-! ### Edits of references -/

/-- An edit of references changes the text of a formula that has a reference which it changes. -/
theorem editReferences_of_parse {locale : Locale} {text : String} {x : Expr}
    (h : Expr.parse locale text = .ok x) {entry : String × Reference} (hentry : entry ∈ x.references)
    (hpositional : entry.2.isPositional = true) {edit : Reference → Option String} {new : String}
    (hedit : edit entry.2 = some new) : ∃ text', editReferences locale text edit = .ok (some text') := by
  obtain ⟨ts, hts, t, ht, hkind, hrole, hparse⟩ := Expr.written_of_parse h hentry
  have hreplaced : ⟨t.span, new⟩ ∈ replacements edit ts := by
    unfold replacements
    refine List.mem_filterMap.mpr ⟨t, ht, ?_⟩
    have hfound : t.positional? = some entry.2 := by
      unfold Token.positional?
      rw [if_pos ⟨hkind, hrole⟩, hparse]
      exact if_pos hpositional
    rw [hfound]
    dsimp only
    rw [hedit]
    rfl
  unfold editReferences
  rw [hts]
  dsimp only
  split
  · next hnone =>
    rw [hnone] at hreplaced
    exact absurd hreplaced List.not_mem_nil
  · exact ⟨_, rfl⟩

end Spreadsheet
