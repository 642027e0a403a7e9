import Spreadsheet.Formula.Expr.Parser

/-!
# Grammar: which tokens are a formula, and of which tree

`Derives` is the grammar of formulas over tokens without blanks, one rule for each way of putting parts
together, each with the tree that it makes. The readers of expressions agree with it.

* `reads_of_derives` — tokens that derive a tree are read as that tree, whatever follows that cannot go
  on with it.
* `derives_of_readBinary` — what is read from tokens derives from them.
* `ofTokens_eq_ok_iff` — so tokens are accepted just if they derive a tree, and it is the tree of the
  derivation.

An operation is `joined k` when its operator, and then every operator that is not inside parentheses,
binds at least as strongly as `k`. The readers stop at an operator that binds more weakly; that is what
`Stops` and `Below` are about.
-/

namespace Spreadsheet

/-- An operator between two operands, of a given strength, that groups to the left. -/
def Token.IsInfix (t : Token) (level : Nat) : Prop :=
  t.kind = .infixSign ∧ t.strength? = some ⟨level, .left⟩

theorem Token.IsInfix.level_eq {t : Token} {level : Nat} (h : t.IsInfix level) :
    (t.strength?.getD ⟨0, .left⟩).level = level := by
  rw [h.2]
  rfl

/-- A token of a kind and a role, such as the parenthesis that closes a call. -/
abbrev Token.Brackets (t : Token) (kind : TokenKind) (role : TokenRole) : Prop :=
  t.kind = kind ∧ t.role = role

namespace Expr

/-! ### The grammar -/

/-- The parts of a formula. -/
inductive Part where
  /-- A leaf, a group or a call. -/
  | primary
  /-- An operand with the percent signs behind it. -/
  | postfixed
  /-- An operand with the signs in front of it. -/
  | signed
  /-- Operands joined by operators that bind at least as strongly as a level. -/
  | joined (level : Nat)
  | argument
  | arguments

/-- What a part is read as. -/
abbrev Part.Tree : Part → Type
  | .arguments => List Expr
  | _ => Expr

/-- Tokens that are a part of a formula, and its tree. -/
inductive Derives (l : Locale) : (p : Part) → List Token → p.Tree → Prop
  | operand {t : Token} {x : Expr} : t.kind = .operand → ofOperand l t = .ok x → Derives l .primary [t] x
  | group {o c : Token} {ts : List Token} {x : Expr} : o.Brackets .group .opening →
      Derives l (.joined 0) ts x → c.Brackets .group .closing → Derives l .primary (o :: ts ++ [c]) x
  | constant {o c : Token} : o.Brackets .call .opening → c.Brackets .call .closing →
      Derives l .primary [o, c] (.call (some o.span) (functionName o) [])
  | call {o c : Token} {ts : List Token} {xs : List Expr} : o.Brackets .call .opening → ts ≠ [] →
      Derives l .arguments ts xs → c.Brackets .call .closing →
      Derives l .primary (o :: ts ++ [c]) (.call (some o.span) (functionName o) xs)
  | plain {ts : List Token} {x : Expr} : Derives l .primary ts x → Derives l .postfixed ts x
  | percent {ts : List Token} {t : Token} {x : Expr} : Derives l .postfixed ts x → t.kind = .postfixSign →
      Derives l .postfixed (ts ++ [t]) (.unary (some t.span) (.ofSymbol t.text) x)
  | unsigned {ts : List Token} {x : Expr} : Derives l .postfixed ts x → Derives l .signed ts x
  | sign {t : Token} {ts : List Token} {x : Expr} : t.kind = .prefixSign → Derives l .signed ts x →
      Derives l .signed (t :: ts) (.unary (some t.span) (.ofSymbol t.text) x)
  | single {level : Nat} {ts : List Token} {x : Expr} : Derives l .signed ts x →
      Derives l (.joined level) ts x
  | join {least level : Nat} {t : Token} {ts us : List Token} {x y : Expr} : t.IsInfix level →
      least ≤ level → Derives l (.joined level) ts x → Derives l (.joined (level + 1)) us y →
      Derives l (.joined least) (ts ++ t :: us) (.binary (some t.span) (.ofSymbol t.text) x y)
  | leftOut : Derives l .argument [] omitted
  | given {ts : List Token} {x : Expr} : Derives l (.joined 0) ts x → Derives l .argument ts x
  | last {ts : List Token} {x : Expr} : Derives l .argument ts x → Derives l .arguments ts [x]
  | more {t : Token} {ts us : List Token} {x : Expr} {xs : List Expr} : Derives l .argument ts x →
      t.Brackets .separator .argument → Derives l .arguments us xs →
      Derives l .arguments (ts ++ t :: us) (x :: xs)

variable {l : Locale} {r : Reading}

/-- Operators that bind more strongly join all the more. -/
theorem Derives.mono {level least : Nat} {ts : List Token} {x : Expr}
    (h : Derives l (.joined level) ts x) (hle : least ≤ level) : Derives l (.joined least) ts x := by
  cases h with
  | single hsigned => exact .single hsigned
  | join hinfixed hlevel hleft hright => exact .join hinfixed (Nat.le_trans hle hlevel) hleft hright

/-! ### How parts begin and end -/

/-- A token that may begin an operation. -/
def Starts (t : Token) : Prop :=
  t.kind = .operand ∨ t.kind = .prefixSign ∨ t.role = .opening

/-- How the tokens of a part begin. -/
def Part.Begins : Part → List Token → Prop
  | .argument, ts => ∀ t ∈ ts.head?, Starts t
  | .arguments, ts => ∀ t ∈ ts.head?, Starts t ∨ t.Brackets .separator .argument
  | _, ts => ∃ t us, ts = t :: us ∧ Starts t

theorem begins_of_derives {p : Part} {ts : List Token} {x : p.Tree} (h : Derives l p ts x) :
    p.Begins ts := by
  induction h with
  | operand hkind _ => exact ⟨_, _, rfl, Or.inl hkind⟩
  | group ho _ _ _ => exact ⟨_, _, rfl, Or.inr (Or.inr ho.2)⟩
  | constant ho _ => exact ⟨_, _, rfl, Or.inr (Or.inr ho.2)⟩
  | call ho _ _ _ _ => exact ⟨_, _, rfl, Or.inr (Or.inr ho.2)⟩
  | plain _ ih => exact ih
  | percent _ _ ih =>
    obtain ⟨t, us, rfl, ht⟩ := ih
    exact ⟨t, _, rfl, ht⟩
  | unsigned _ ih => exact ih
  | sign ht _ _ => exact ⟨_, _, rfl, Or.inr (Or.inl ht)⟩
  | single _ ih => exact ih
  | join _ _ _ _ ih _ =>
    obtain ⟨t, us, rfl, ht⟩ := ih
    exact ⟨t, _, rfl, ht⟩
  | leftOut => exact fun t ht => absurd ht (by simp)
  | given _ ih =>
    obtain ⟨t, us, rfl, ht⟩ := ih
    rintro t' ⟨⟩
    exact ht
  | last _ ih => exact fun t ht => Or.inl (ih t ht)
  | @more t ts us x xs _ ht _ ih _ =>
    match ts with
    | [] =>
      rintro t' ⟨⟩
      exact Or.inr ht
    | t' :: ts => exact fun t'' ht'' => Or.inl (ih t'' ht'')

theorem Starts.not_atCallEnd {t : Token} (h : Starts t) (ts : List Token) : atCallEnd (t :: ts) = false := by
  rcases h with h | h | h <;> simp [atCallEnd, h]

theorem Starts.not_atSeparator {t : Token} (h : Starts t) (ts : List Token) :
    atSeparator (t :: ts) = false := by
  rcases h with h | h | h <;> simp [atSeparator, h]

/-- The tokens that follow do not go on with an operation of a level. -/
def Stops (level : Nat) (ts : List Token) : Prop :=
  ∀ t ∈ ts.head?, t.kind ≠ .postfixSign ∧
    (t.kind = .infixSign → (t.strength?.getD ⟨0, .left⟩).level ≤ level)

/-- The tokens that follow do not go on with operators that bind at least as strongly as a level. -/
def Below (level : Nat) (ts : List Token) : Prop :=
  ∀ t ∈ ts.head?, t.kind = .infixSign → (t.strength?.getD ⟨0, .left⟩).level < level

/-! ### What derives is read -/

/-- A reader has read something and leaves tokens behind. -/
def Yields {α : Type} {P : List Token → Prop}
    (result : Except ParseError (α × { rest : List Token // P rest })) (x : α) (rest : List Token) : Prop :=
  ∃ h, result = .ok (x, ⟨rest, h⟩)

/-- What it means that a reader reads a part, whatever follows it. -/
def Part.Read (r : Reading) : (p : Part) → List Token → p.Tree → Prop
  | .primary, ts, x => ∀ rest all, all = ts ++ rest → Yields (readPrimary r all) x rest
  | .postfixed, ts, x => ∀ rest all, all = ts ++ rest → ∃ y mid, Yields (readPrimary r all) y mid ∧
      applyPostfixes y mid = applyPostfixes x rest
  | .signed, ts, x => ∀ rest all, all = ts ++ rest → (∀ t ∈ rest.head?, t.kind ≠ .postfixSign) →
      Yields (readSigned r all) x rest
  | .joined level, ts, x => ∀ rest all, all = ts ++ rest → Stops level rest → ∀ least ≤ level, ∀ y tail,
      Yields (climb r least x rest) y tail → Yields (readBinary r least all) y tail
  | .argument, ts, x => ∀ t rest all, all = ts ++ t :: rest →
      t.Brackets .separator .argument ∨ t.Brackets .call .closing → ∀ xs tail,
      (∀ h : (t :: rest).length ≤ all.length, Yields (afterArgument r x all (t :: rest) h) xs tail) →
      Yields (readArguments r all) xs tail
  | .arguments, ts, xs => ∀ c rest all, all = ts ++ c :: rest → c.Brackets .call .closing →
      Yields (readArguments r all) xs rest

theorem yields_readBinary {least : Nat} {ts mid rest : List Token} {left x : Expr}
    (hleft : Yields (readSigned r ts) left mid) (hclimb : Yields (climb r least left mid) x rest) :
    Yields (readBinary r least ts) x rest := by
  obtain ⟨hmid, hleft⟩ := hleft
  obtain ⟨hrest, hclimb⟩ := hclimb
  refine ⟨Nat.lt_of_le_of_lt hrest hmid, ?_⟩
  unfold readBinary
  rw [hleft]
  dsimp only
  rw [hclimb]

theorem yields_climb {least level : Nat} {t : Token} {ts mid rest : List Token} {left right x : Expr}
    (hinfixed : t.IsInfix level) (hle : least ≤ level)
    (hright : Yields (readBinary r (level + 1) ts) right mid)
    (hclimb : Yields (climb r least (.binary (some t.span) (.ofSymbol t.text) left right) mid) x rest) :
    Yields (climb r least left (t :: ts)) x rest := by
  obtain ⟨hmid, hright⟩ := hright
  obtain ⟨hrest, hclimb⟩ := hclimb
  refine ⟨Nat.le_trans hrest (Nat.le_trans (Nat.le_of_lt hmid) (Nat.le_succ _)), ?_⟩
  have hgo : ¬(t.kind ≠ .infixSign ∨ (t.strength?.getD ⟨0, .left⟩).level < least) := by
    rw [hinfixed.2]
    exact fun h => h.elim (fun hkind => hkind hinfixed.1) (Nat.not_lt.mpr hle)
  unfold climb
  dsimp only
  rw [if_neg hgo, hinfixed.2]
  dsimp only [Option.getD_some]
  rw [if_pos rfl, hright]
  dsimp only
  rw [hclimb]

theorem applyPostfixes_of_stops {x : Expr} {rest : List Token}
    (h : ∀ t ∈ rest.head?, t.kind ≠ .postfixSign) : applyPostfixes x rest = (x, rest) := by
  match rest with
  | [] => rfl
  | t :: rest =>
    unfold applyPostfixes
    exact if_neg (h t rfl)

/-- Behind an operation the reader of operators stops at weaker ones. -/
theorem climb_of_below {least : Nat} {rest : List Token} (x : Expr) (h : Below least rest) :
    Yields (climb r least x rest) x rest := by
  match rest with
  | [] => exact ⟨Nat.le_refl _, by unfold climb; rfl⟩
  | t :: rest =>
    refine ⟨Nat.le_refl _, ?_⟩
    unfold climb
    refine if_pos ?_
    exact (Classical.em (t.kind = .infixSign)).symm.imp_right (h t rfl)

theorem yields_operand {t : Token} {x : Expr} (hkind : t.kind = .operand)
    (hleaf : ofOperand r.locale t = .ok x) (ts : List Token) : Yields (readPrimary r (t :: ts)) x ts := by
  refine ⟨Nat.lt_succ_self _, ?_⟩
  unfold readPrimary
  rw [if_pos hkind, hleaf]

theorem yields_group {o c : Token} {ts rest : List Token} {x : Expr} (ho : o.Brackets .group .opening)
    (hinner : Yields (readBinary r 0 ts) x (c :: rest)) (hc : c.Brackets .group .closing) :
    Yields (readPrimary r (o :: ts)) x rest := by
  obtain ⟨hlen, hinner⟩ := hinner
  refine ⟨by simp only [List.length_cons] at hlen ⊢; omega, ?_⟩
  have hoperand : o.kind ≠ .operand := by simp [ho.1]
  have hcall : ¬(o.kind = .call ∧ o.role = .opening) := by simp [ho.1]
  unfold readPrimary
  rw [if_neg hoperand, if_neg hcall, if_pos ho, hinner]
  dsimp only
  rw [if_pos hc]

theorem yields_noArguments {o c : Token} (ho : o.Brackets .call .opening) (hc : c.Brackets .call .closing)
    (ts : List Token) :
    Yields (readPrimary r (o :: c :: ts)) (.call (some o.span) (functionName o) []) ts := by
  have hoperand : o.kind ≠ .operand := by simp [ho.1]
  have hend : atCallEnd (c :: ts) = true := by simp [atCallEnd, hc.1, hc.2]
  refine ⟨by simp only [List.length_cons]; omega, ?_⟩
  unfold readPrimary
  rw [if_neg hoperand, if_pos ho, if_pos hend]
  rfl

theorem yields_call {o : Token} {ts rest : List Token} {xs : List Expr} (ho : o.Brackets .call .opening)
    (hend : atCallEnd ts = false) (harguments : Yields (readArguments r ts) xs rest) :
    Yields (readPrimary r (o :: ts)) (.call (some o.span) (functionName o) xs) rest := by
  obtain ⟨hlen, harguments⟩ := harguments
  refine ⟨Nat.lt_succ_of_lt hlen, ?_⟩
  have hoperand : o.kind ≠ .operand := by simp [ho.1]
  unfold readPrimary
  rw [if_neg hoperand, if_pos ho, hend, harguments]
  rfl

theorem yields_sign {t : Token} {ts rest : List Token} {x : Expr} (ht : t.kind = .prefixSign)
    (hoperand : Yields (readSigned r ts) x rest) :
    Yields (readSigned r (t :: ts)) (.unary (some t.span) (.ofSymbol t.text) x) rest := by
  obtain ⟨hlen, hoperand⟩ := hoperand
  refine ⟨Nat.lt_succ_of_lt hlen, ?_⟩
  unfold readSigned
  rw [if_pos ht, hoperand]

theorem yields_postfixed {ts mid rest : List Token} {x y : Expr} (hprimary : Yields (readPrimary r ts) y mid)
    (hpostfixes : applyPostfixes y mid = (x, rest)) : Yields (readPostfixed r ts) x rest := by
  obtain ⟨hlen, hprimary⟩ := hprimary
  have hrest : rest.length ≤ mid.length := by
    have h := length_applyPostfixes y mid
    rw [hpostfixes] at h
    exact h
  refine ⟨Nat.lt_of_le_of_lt hrest hlen, ?_⟩
  unfold readPostfixed
  rw [hprimary]
  simp only [hpostfixes]

theorem yields_unsigned {ts mid rest : List Token} {x y : Expr} (hprimary : Yields (readPrimary r ts) y mid)
    (hpostfixes : applyPostfixes y mid = (x, rest)) : Yields (readSigned r ts) x rest := by
  obtain ⟨hlen, hpostfixed⟩ := yields_postfixed hprimary hpostfixes
  refine ⟨hlen, ?_⟩
  match ts with
  | [] =>
    unfold readSigned
    exact hpostfixed
  | t :: ts =>
    have ht : t.kind ≠ .prefixSign := by
      intro ht
      obtain ⟨_, hprimary⟩ := hprimary
      unfold readPrimary at hprimary
      simp [ht] at hprimary
    unfold readSigned
    rw [if_neg ht, hpostfixed]

theorem yields_leftOut {t : Token} {ts rest : List Token} {xs : List Expr}
    (ht : (atSeparator (t :: ts) || atCallEnd (t :: ts)) = true)
    (hafter : ∀ h : (t :: ts).length ≤ (t :: ts).length,
      Yields (afterArgument r omitted (t :: ts) (t :: ts) h) xs rest) :
    Yields (readArguments r (t :: ts)) xs rest := by
  obtain ⟨hlen, hafter⟩ := hafter (Nat.le_refl _)
  refine ⟨hlen, ?_⟩
  unfold readArguments
  rw [if_pos ht, hafter]

theorem yields_given {ts mid rest : List Token} {x : Expr} {xs : List Expr}
    (hts : (atSeparator ts || atCallEnd ts) = false) (hargument : Yields (readBinary r 0 ts) x mid)
    (hafter : ∀ h : mid.length ≤ ts.length, Yields (afterArgument r x ts mid h) xs rest) :
    Yields (readArguments r ts) xs rest := by
  obtain ⟨hmid, hargument⟩ := hargument
  obtain ⟨hlen, hafter⟩ := hafter (Nat.le_of_lt hmid)
  refine ⟨hlen, ?_⟩
  unfold readArguments
  rw [hts, hargument]
  exact hafter

theorem yields_last {c : Token} (hc : c.Brackets .call .closing) (x : Expr) {all rest : List Token}
    (h : (c :: rest).length ≤ all.length) : Yields (afterArgument r x all (c :: rest) h) [x] rest := by
  have hseparator : atSeparator (c :: rest) = false := by simp [atSeparator, hc.1]
  have hend : atCallEnd (c :: rest) = true := by simp [atCallEnd, hc.1, hc.2]
  refine ⟨h, ?_⟩
  unfold afterArgument
  rw [hseparator, hend]
  rfl

theorem yields_more {t : Token} (ht : t.Brackets .separator .argument) (x : Expr) {all ts rest : List Token}
    {xs : List Expr} (hmore : Yields (readArguments r ts) xs rest) (h : (t :: ts).length ≤ all.length) :
    Yields (afterArgument r x all (t :: ts) h) (x :: xs) rest := by
  obtain ⟨hlen, hmore⟩ := hmore
  have hseparator : atSeparator (t :: ts) = true := by simp [atSeparator, ht.1, ht.2]
  refine ⟨Nat.lt_of_lt_of_le (Nat.lt_succ_of_lt hlen) h, ?_⟩
  unfold afterArgument
  rw [hseparator, hmore]
  rfl

theorem reads_of_derives {p : Part} {ts : List Token} {x : p.Tree} (h : Derives r.locale p ts x) :
    p.Read r ts x := by
  induction h with
  | @operand t x hkind hleaf =>
    intro rest all hall
    have hall : all = t :: rest := hall
    subst hall
    exact yields_operand hkind hleaf rest
  | @group o c ts x ho hinner hc ih =>
    intro rest all hall
    have hall : all = o :: (ts ++ c :: rest) := by simp [hall]
    subst hall
    refine yields_group ho (ih (c :: rest) _ rfl ?_ 0 (Nat.le_refl 0) x _ (climb_of_below x ?_)) hc
    · rintro t ⟨⟩
      rw [hc.1]
      exact ⟨by decide, fun h => TokenKind.noConfusion h⟩
    · rintro t ⟨⟩ hinfixed
      rw [hc.1] at hinfixed
      cases hinfixed
  | @constant o c ho hc => 
    intro rest all hall
    have hall : all = o :: c :: rest := hall
    subst hall
    exact yields_noArguments ho hc rest
  | @call o c ts xs ho hne harguments hc ih =>
    intro rest all hall
    have hall : all = o :: (ts ++ c :: rest) := by simp [hall]
    subst hall
    have hend : atCallEnd (ts ++ c :: rest) = false := by
      have hbegins : Part.Begins .arguments ts := begins_of_derives harguments
      obtain ⟨t, ts', rfl⟩ := List.exists_cons_of_ne_nil hne
      rcases hbegins t rfl with hstarts | hseparator
      · exact hstarts.not_atCallEnd _
      · simp [atCallEnd, hseparator.1]
    exact yields_call ho hend (ih c rest _ rfl hc)
  | plain _ ih => exact fun rest all hall => ⟨_, rest, ih rest all hall, rfl⟩
  | @percent ts t x _ ht ih =>
    intro rest all hall
    have hall : all = ts ++ t :: rest := by simp [hall]
    obtain ⟨y, mid, hprimary, hpostfixes⟩ := ih (t :: rest) all hall
    refine ⟨y, mid, hprimary, hpostfixes.trans ?_⟩
    rw [applyPostfixes, if_pos ht]
  | @unsigned ts x _ ih =>
    intro rest all hall hrest
    obtain ⟨y, mid, hprimary, hpostfixes⟩ := ih rest all hall
    rw [applyPostfixes_of_stops hrest] at hpostfixes
    exact yields_unsigned hprimary hpostfixes
  | @sign t ts x ht _ ih =>
    intro rest all hall hrest
    have hall : all = t :: (ts ++ rest) := hall
    subst hall
    exact yields_sign ht (ih rest _ rfl hrest)
  | @single level ts x _ ih =>
    intro rest all hall hstops least hle y tail hclimb
    exact yields_readBinary (ih rest all hall fun t ht => (hstops t ht).1) hclimb
  | @join least level t ts us x y hinfixed hle hleft hright ihleft ihright =>
    intro rest all hall hstops bound hbound z tail hclimb
    have hall : all = ts ++ t :: (us ++ rest) := by simp [hall]
    refine ihleft _ all hall ?_ bound (Nat.le_trans hbound hle) z tail ?_
    · rintro t' ⟨⟩
      rw [hinfixed.1, hinfixed.level_eq]
      exact ⟨by decide, fun _ => Nat.le_refl level⟩
    · refine yields_climb hinfixed (Nat.le_trans hbound hle) ?_ hclimb
      refine ihright rest _ rfl ?_ (level + 1) (Nat.le_refl _) y rest ?_
      · exact fun t' ht' => ⟨(hstops t' ht').1, fun h => Nat.le_succ_of_le (Nat.le_trans ((hstops t' ht').2 h) hle)⟩
      · refine climb_of_below y fun t' ht' h => ?_
        exact Nat.lt_succ_of_le (Nat.le_trans ((hstops t' ht').2 h) hle)
  | leftOut =>
    intro t rest all hall ht xs tail hafter
    have hall : all = t :: rest := hall
    subst hall
    refine yields_leftOut ?_ hafter
    rcases ht with ht | ht <;> simp [atSeparator, atCallEnd, ht.1, ht.2]
  | @given ts x hjoined ih =>
    intro t rest all hall ht xs tail hafter
    obtain ⟨t', us, hts, hstarts⟩ : Part.Begins (.joined 0) ts := begins_of_derives hjoined
    refine yields_given ?_ (ih (t :: rest) all hall ?_ 0 (Nat.le_refl 0) x _ (climb_of_below x ?_)) hafter
    · rw [hall, hts, List.cons_append, hstarts.not_atSeparator, hstarts.not_atCallEnd]
      rfl
    · rintro t' ⟨⟩
      rcases ht with ht | ht <;> rw [ht.1] <;> exact ⟨by decide, fun h => TokenKind.noConfusion h⟩
    · rintro t' ⟨⟩ hinfixed
      rcases ht with ht | ht <;> rw [ht.1] at hinfixed <;> cases hinfixed
  | @last ts x _ ih =>
    intro c rest all hall hc
    exact ih c rest all hall (Or.inr hc) [x] rest (yields_last hc x)
  | @more t ts us x xs _ ht _ ih ihmore =>
    intro c rest all hall hc
    have hall : all = ts ++ t :: (us ++ c :: rest) := by simp [hall]
    exact ih t _ all hall (Or.inl ht) (x :: xs) rest (yields_more ht x (ihmore c rest _ rfl hc))

/-! ### What is read derives -/

/-- The operators among tokens are operators of the language. -/
def HasOperators (ts : List Token) : Prop :=
  ∀ t ∈ ts, t.kind = .infixSign → ∃ level, t.IsInfix level

theorem HasOperators.of_subset {ts us : List Token} (h : HasOperators ts) (hsub : ∀ t ∈ us, t ∈ ts) :
    HasOperators us :=
  fun t ht => h t (hsub t ht)

/-- A left operand that operators of any strength may follow, as far as the next token goes. -/
def Joins (l : Locale) (least : Nat) (ts : List Token) (x : Expr) (rest : List Token) : Prop :=
  Derives l (.joined least) ts x ∧ ∀ t ∈ rest.head?, ∀ level, t.IsInfix level → Derives l (.joined level) ts x

theorem applyPostfixes_derives {ts : List Token} {x : Expr} (h : Derives l .postfixed ts x)
    (rest : List Token) : ∃ us, rest = us ++ (applyPostfixes x rest).2 ∧
      Derives l .postfixed (ts ++ us) (applyPostfixes x rest).1 := by
  induction rest generalizing ts x with
  | nil => exact ⟨[], rfl, by rw [List.append_nil]; exact h⟩
  | cons t rest ih =>
    unfold applyPostfixes
    split
    · next ht =>
      obtain ⟨us, hus, hderives⟩ := ih (h.percent ht)
      refine ⟨t :: us, by rw [List.cons_append, ← hus], ?_⟩
      rw [List.append_assoc, List.singleton_append] at hderives
      exact hderives
    · exact ⟨[], rfl, by rw [List.append_nil]; exact h⟩

mutual

theorem derives_of_readBinary {least : Nat} {ts : List Token} {x : Expr} {rest : List Token}
    (hts : HasOperators ts) (h : Yields (readBinary r least ts) x rest) :
    ∃ us, ts = us ++ rest ∧ Derives r.locale (.joined least) us x ∧ Below least rest := by
  obtain ⟨hlen, h⟩ := h
  unfold readBinary at h
  split at h
  · cases h
  · next left mid hmid hleft =>
    split at h
    · cases h
    · next x' rest' hrest hclimb =>
      cases h
      obtain ⟨us, rfl, hsigned⟩ := derives_of_readSigned hts ⟨hmid, hleft⟩
      have hjoins : Joins r.locale least us left mid := ⟨.single hsigned, fun _ _ _ _ => .single hsigned⟩
      obtain ⟨vs, rfl, hderives, hbelow⟩ :=
        derives_of_climb (hts.of_subset fun t => List.mem_append_right us) hjoins ⟨hrest, hclimb⟩
      exact ⟨us ++ vs, (List.append_assoc _ _ _).symm, hderives, hbelow⟩
termination_by (ts.length, 4)

theorem derives_of_climb {least : Nat} {left : Expr} {before ts : List Token} {x : Expr}
    {rest : List Token} (hts : HasOperators ts) (hleft : Joins r.locale least before left ts)
    (h : Yields (climb r least left ts) x rest) :
    ∃ us, ts = us ++ rest ∧ Derives r.locale (.joined least) (before ++ us) x ∧ Below least rest := by
  match ts with
  | [] =>
    obtain ⟨hlen, h⟩ := h
    unfold climb at h
    cases h
    refine ⟨[], rfl, by rw [List.append_nil]; exact hleft.1, fun t ht => absurd ht (by simp)⟩
  | t :: mid =>
    obtain ⟨hlen, h⟩ := h
    unfold climb at h
    dsimp only at h
    split at h
    · next hstop =>
      cases h
      refine ⟨[], rfl, by rw [List.append_nil]; exact hleft.1, ?_⟩
      rintro t' ⟨⟩ hinfixed
      exact hstop.resolve_left fun hnot => hnot hinfixed
    · next hgo =>
      rw [not_or, Classical.not_not, Nat.not_lt] at hgo
      obtain ⟨level, hinfixed⟩ := hts t List.mem_cons_self hgo.1
      rw [hinfixed.level_eq] at h hgo
      rw [hinfixed.2] at h
      dsimp only [Option.getD_some] at h
      rw [if_pos rfl] at h
      split at h
      · cases h
      · next right mid' hmid hright =>
        split at h
        · cases h
        · next x' rest' hrest hclimb =>
          cases h
          have hmidOperators : HasOperators mid := hts.of_subset fun t' => List.mem_cons_of_mem t
          obtain ⟨us, rfl, hrightDerives, hbelow⟩ := derives_of_readBinary hmidOperators ⟨hmid, hright⟩
          have hjoined : ∀ bound ≤ level, Derives r.locale (.joined bound) (before ++ t :: us)
              (.binary (some t.span) (.ofSymbol t.text) left right) :=
            fun bound hbound => .join hinfixed hbound (hleft.2 t rfl level hinfixed) hrightDerives
          have hjoins : Joins r.locale least (before ++ t :: us)
              (.binary (some t.span) (.ofSymbol t.text) left right) mid' := by
            refine ⟨hjoined least hgo.2, fun t' ht' level' hinfixed' => hjoined level' ?_⟩
            have hlt := hbelow t' ht' hinfixed'.1
            rw [hinfixed'.level_eq] at hlt
            exact Nat.le_of_lt_succ hlt
          obtain ⟨vs, rfl, hderives, hbelow'⟩ :=
            derives_of_climb (hmidOperators.of_subset fun t' => List.mem_append_right us) hjoins ⟨hrest, hclimb⟩
          refine ⟨t :: us ++ vs, by simp, ?_, hbelow'⟩
          rw [List.append_assoc] at hderives
          exact hderives
termination_by (ts.length, 0)

theorem derives_of_readSigned {ts : List Token} {x : Expr} {rest : List Token}
    (hts : HasOperators ts) (h : Yields (readSigned r ts) x rest) :
    ∃ us, ts = us ++ rest ∧ Derives r.locale .signed us x := by
  match ts with
  | t :: mid =>
    obtain ⟨hlen, h⟩ := h
    unfold readSigned at h
    split at h
    · next ht =>
      split at h
      · cases h
      · next operand rest' hrest hoperand =>
        cases h
        have hmid : HasOperators mid := hts.of_subset fun t' => List.mem_cons_of_mem t
        obtain ⟨us, rfl, hderives⟩ := derives_of_readSigned hmid ⟨hrest, hoperand⟩
        exact ⟨t :: us, rfl, .sign ht hderives⟩
    · obtain ⟨us, hus, hderives⟩ := derives_of_readPostfixed hts ⟨hlen, h⟩
      exact ⟨us, hus, .unsigned hderives⟩
  | [] =>
    obtain ⟨hlen, h⟩ := h
    unfold readSigned at h
    obtain ⟨us, hus, hderives⟩ := derives_of_readPostfixed hts ⟨hlen, h⟩
    exact ⟨us, hus, .unsigned hderives⟩
termination_by (ts.length, 3)

theorem derives_of_readPostfixed {ts : List Token} {x : Expr} {rest : List Token}
    (hts : HasOperators ts) (h : Yields (readPostfixed r ts) x rest) :
    ∃ us, ts = us ++ rest ∧ Derives r.locale .postfixed us x := by
  obtain ⟨hlen, h⟩ := h
  unfold readPostfixed at h
  split at h
  · cases h
  · next operand mid hmid hoperand =>
    cases h
    obtain ⟨us, rfl, hderives⟩ := derives_of_readPrimary hts ⟨hmid, hoperand⟩
    obtain ⟨vs, hvs, hpostfixed⟩ := applyPostfixes_derives (.plain hderives) mid
    refine ⟨us ++ vs, ?_, hpostfixed⟩
    rw [List.append_assoc, ← hvs]
termination_by (ts.length, 2)

theorem derives_of_readPrimary {ts : List Token} {x : Expr} {rest : List Token}
    (hts : HasOperators ts) (h : Yields (readPrimary r ts) x rest) :
    ∃ us, ts = us ++ rest ∧ Derives r.locale .primary us x := by
  match ts with
  | [] =>
    obtain ⟨hlen, h⟩ := h
    unfold readPrimary at h
    cases h
  | t :: mid =>
    obtain ⟨hlen, h⟩ := h
    have hmid : HasOperators mid := hts.of_subset fun t' => List.mem_cons_of_mem t
    unfold readPrimary at h
    split at h
    · next hkind =>
      split at h
      · cases h
      · next x' hleaf =>
        cases h
        exact ⟨[t], rfl, .operand hkind hleaf⟩
    · split at h
      · next ho =>
        split at h
        · next hend =>
          cases h
          match mid with
          | [] => cases hend
          | c :: mid =>
            have hc : c.Brackets .call .closing := by simpa [atCallEnd] using hend
            exact ⟨[t, c], rfl, .constant ho hc⟩
        · next hend =>
          split at h
          · cases h
          · next xs rest' hrest harguments =>
            cases h
            obtain ⟨us, c, rfl, hc, hderives⟩ := derives_of_readArguments hmid ⟨hrest, harguments⟩
            refine ⟨t :: us ++ [c], by simp, .call ho ?_ hderives hc⟩
            rintro rfl
            exact hend (by simp [atCallEnd, hc.1, hc.2])
      · split at h
        · next ho =>
          split at h
          · cases h
          · next inner mid' _ hinner =>
            split at h
            · cases h
            · next c rest' hrest =>
              split at h
              · next hc =>
                cases h
                obtain ⟨us, rfl, hderives, -⟩ := derives_of_readBinary hmid ⟨hrest, hinner⟩
                exact ⟨t :: us ++ [c], by simp, .group ho hderives hc⟩
              · cases h
        · cases h
termination_by (ts.length, 1)

theorem derives_of_readArguments {ts : List Token} {xs : List Expr} {rest : List Token}
    (hts : HasOperators ts) (h : Yields (readArguments r ts) xs rest) :
    ∃ us c, ts = us ++ c :: rest ∧ c.Brackets .call .closing ∧ Derives r.locale .arguments us xs := by
  obtain ⟨hlen, h⟩ := h
  unfold readArguments at h
  split at h
  · exact derives_of_afterArgument hts .leftOut ⟨hlen, h⟩
  · split at h
    · cases h
    · next x mid hmid hargument =>
      obtain ⟨us, rfl, hderives, -⟩ := derives_of_readBinary hts ⟨hmid, hargument⟩
      obtain ⟨vs, c, hvs, hc, hall⟩ := derives_of_afterArgument
        (hts.of_subset fun t => List.mem_append_right us) (.given hderives) ⟨hlen, h⟩
      exact ⟨vs, c, hvs, hc, hall⟩
termination_by (ts.length, 6)

theorem derives_of_afterArgument {x : Expr} {before ts rest : List Token} {hle : rest.length ≤ ts.length}
    {xs : List Expr} {tail : List Token} (hts : HasOperators rest)
    (hbefore : Derives r.locale .argument before x)
    (h : Yields (afterArgument r x ts rest hle) xs tail) :
    ∃ us c, before ++ rest = us ++ c :: tail ∧ c.Brackets .call .closing ∧
      Derives r.locale .arguments us xs := by
  match rest with
  | [] =>
    obtain ⟨hlen, h⟩ := h
    unfold afterArgument at h
    cases h
  | t :: mid =>
    obtain ⟨hlen, h⟩ := h
    unfold afterArgument at h
    split at h
    · next hseparator =>
      split at h
      · cases h
      · next ys tail' htail harguments =>
        cases h
        have hmid : HasOperators mid := hts.of_subset fun t' => List.mem_cons_of_mem t
        obtain ⟨us, c, rfl, hc, hderives⟩ := derives_of_readArguments hmid ⟨htail, harguments⟩
        refine ⟨before ++ t :: us, c, by simp, hc, .more hbefore ?_ hderives⟩
        simpa [atSeparator] using hseparator
    · split at h
      · next hend =>
        cases h
        exact ⟨before, t, rfl, by simpa [atCallEnd] using hend, .last hbefore⟩
      · cases h
termination_by (rest.length, 5)

end

/-- **Tokens are a formula just if they derive a tree**, blanks aside, and it is the tree that is read. -/
theorem ofTokens_eq_ok_iff {tokens : List Token} (hoperators : HasOperators tokens)
    (hliteral : ∀ t ∈ tokens, t.kind ≠ .literal) {x : Expr} :
    ofTokens l tokens = .ok x ↔ Derives l (.joined 0) (tokens.filter fun t => t.kind != .blank) x := by
  have hsub : ∀ t ∈ tokens.filter fun t => t.kind != .blank, t ∈ tokens :=
    fun t ht => (List.mem_filter.mp ht).1
  unfold ofTokens
  dsimp only
  generalize tokens.filter (fun t => t.kind != .blank) = ts at hsub
  match ts with
  | [] =>
    constructor
    · intro h
      cases h
    · intro h
      obtain ⟨t, us, hts, -⟩ : Part.Begins (.joined 0) [] := begins_of_derives h
      cases hts
  | t :: ts =>
    have hkind : t.kind ≠ .literal := hliteral t (hsub t List.mem_cons_self)
    dsimp only
    rw [if_neg hkind]
    generalize hr : Reading.mk l ((t :: ts).getLast?.map fun t => t.span.stop) = r
    have hlocale : r.locale = l := by rw [← hr]
    constructor
    · intro h
      split at h
      · cases h
      · next x' hlen hread =>
        cases h
        obtain ⟨us, hus, hderives, -⟩ := derives_of_readBinary (hoperators.of_subset hsub) ⟨hlen, hread⟩
        rw [List.append_nil] at hus
        rw [hus, ← hlocale]
        exact hderives
      · cases h
    · intro h
      rw [← hlocale] at h
      have hread : Part.Read r (.joined 0) (t :: ts) x := reads_of_derives h
      have hstops : Stops 0 [] := fun t ht => absurd ht (by simp)
      obtain ⟨hlen, hread⟩ := hread [] (t :: ts) (List.append_nil _).symm hstops 0 (Nat.le_refl 0) x []
        (climb_of_below x fun t ht => absurd ht (by simp))
      rw [hread]

end Expr

end Spreadsheet
