import Spreadsheet.Proofs.Parsing

/-!
# Accepting: the grammar of operators, level by level

`Generates` is the grammar of formulas as one would write it down: a primary is an operand, an expression in parentheses
or a call whose arguments may be left out; percent signs stand behind a primary and signs in front of that; and
there is one level of binary operators for each strength, from the comparisons to the powers, where an operation
has operands of its own level on the left and of the next one on the right. The operators are written out and
not looked up, and what an operand may stand for is left open.

* `generates_leaf_iff` — the grammar generates the same trees as the one by strengths that the readers follow.
* `generates_of_leaves` — whether tokens are generated depends on the operands only as far as each of them
  stands for something.
* `ofTokens_iff_generates` — so a formula is read just if all its operands are valid and its tokens are generated,
  and what is read is the tree that is generated.
-/

namespace Spreadsheet

namespace ErrorKind

/-- Only the number sign is the number sign in lower case. -/
theorem eq_hash_of_toLower {c : Char} (h : c.toLower = '#') : c = '#' := by
  by_cases hupper : c.val ≥ 'A'.val ∧ c.val ≤ 'Z'.val
  · have hlower : c.toLower = _ := dif_pos hupper
    have hval : (c.val + ('a'.val - 'A'.val)).toNat = '#'.val.toNat :=
      congrArg (fun d : Char => d.val.toNat) (hlower.symm.trans h)
    have hfirst : 65 ≤ c.val.toNat := UInt32.le_iff_toNat_le.mp hupper.1
    have hlast : c.val.toNat ≤ 90 := UInt32.le_iff_toNat_le.mp hupper.2
    have hgap : ('a'.val - 'A'.val).toNat = 32 := by decide
    have hhash : '#'.val.toNat = 35 := by decide
    rw [UInt32.toNat_add, hgap, hhash] at hval
    omega
  · have hsame : c.toLower = c := dif_neg hupper
    rwa [hsame] at h

theorem hash_mem_code : ∀ kind ∈ all, '#' ∈ kind.code.toList.map Char.toLower := by
  decide

/-- Whatever reads as the code of an error has a number sign. -/
theorem hash_mem_of_ofCode? {s : String} {kind : ErrorKind} (h : ofCode? s = some kind) : '#' ∈ s.toList := by
  have hcode := hash_mem_code kind (List.mem_of_find?_eq_some h)
  have hsame := List.find?_some h
  rw [Text.sameAscii, beq_iff_eq] at hsame
  rw [← Text.toList_foldAscii, hsame, Text.toList_foldAscii] at hcode
  obtain ⟨c, hc, hlower⟩ := List.mem_map.mp hcode
  obtain rfl := eq_hash_of_toLower hlower
  unfold Text.trimBlanks at hc
  rw [String.toList_ofList, List.mem_reverse] at hc
  have hc := List.mem_reverse.mp ((List.dropWhile_sublist _).mem hc)
  exact (List.dropWhile_sublist _).mem hc

end ErrorKind

theorem UnaryOperator.ofSymbol_symbol_of_mem : ∀ op ∈ [plus, minus], ofSymbol op.symbol = op := by
  decide

namespace Expr

/-! ### Operands -/

/-- The error that a literal stands for. -/
def literalError (kind : ErrorKind) : ErrorValue :=
  if kind = .invalidReference then Cause.deletedReference.toError else { kind }

/-- A valid operand and the leaf that it stands for. -/
inductive Leaf (l : Locale) (t : Token) : Expr → Prop
  | number {x : Float} : t.role = .number → l.readNumber t.text = some x → Leaf l t (.literal (some t.span) (.number x))
  | text : t.role = .text → Leaf l t (.literal (some t.span) (.text (unquote t.text)))
  | logical : t.role = .logical → Leaf l t (.literal (some t.span) (.boolean (Text.sameAscii t.text "TRUE")))
  /-- A known code, alone or behind a qualifier. -/
  | error {qualifier code : List Char} {kind : ErrorKind} : t.role = .error →
      t.text.toList = qualifier ++ '#' :: code → '#' ∉ qualifier →
      ErrorKind.ofCode? (String.ofList ('#' :: code)) = some kind →
      Leaf l t (.literal (some t.span) (.error (literalError kind)))
  | reference {r : Reference} : t.role = .range → Reference.parse t.text = .ok r →
      Leaf l t (.reference (some t.span) t.text r)

variable {l : Locale}

theorem errorLiteral?_eq_some_iff {s : String} {e : ErrorValue} :
    errorLiteral? s = some e ↔ ∃ qualifier code kind, s.toList = qualifier ++ '#' :: code ∧ '#' ∉ qualifier ∧
      ErrorKind.ofCode? (String.ofList ('#' :: code)) = some kind ∧ e = literalError kind := by
  unfold errorLiteral? ErrorValue.ofCode?
  dsimp only
  have hsplit := List.takeWhile_append_dropWhile (p := (· ≠ '#')) (l := s.toList)
  have hbefore : '#' ∉ s.toList.takeWhile (· ≠ '#') := by
    intro hmem
    simpa using List.all_eq_true.mp List.all_takeWhile '#' hmem
  constructor
  · intro h
    obtain ⟨found, hfound, rfl⟩ := Option.map_eq_some_iff.mp h
    obtain ⟨kind, hkind, rfl⟩ := Option.map_eq_some_iff.mp hfound
    cases hcode : s.toList.dropWhile (· ≠ '#') with
    | nil =>
      rw [if_pos hcode] at hkind
      rw [hcode, List.append_nil] at hsplit
      rw [hsplit] at hbefore
      exact absurd (ErrorKind.hash_mem_of_ofCode? hkind) hbefore
    | cons c code =>
      have hhash := List.head?_dropWhile_not (· ≠ '#') s.toList
      rw [hcode] at hhash hsplit hkind
      obtain rfl : c = '#' := by simpa using hhash
      exact ⟨_, code, kind, hsplit.symm, hbefore, hkind, rfl⟩
  · rintro ⟨qualifier, code, kind, hs, hqualifier, hkind, rfl⟩
    have hdrop : s.toList.dropWhile (· ≠ '#') = '#' :: code := by
      rw [hs, List.dropWhile_append_of_pos, List.dropWhile_cons_of_neg (by simp)]
      intro c hc
      simpa using fun heq : c = '#' => hqualifier (heq ▸ hc)
    rw [hdrop, if_neg (List.cons_ne_nil _ _), hkind]
    rfl

/-- The readers take the valid operands, each for its leaf. -/
theorem ofOperand_eq_ok_iff {t : Token} {x : Expr} : ofOperand l t = .ok x ↔ Leaf l t x := by
  unfold ofOperand
  constructor
  · intro h
    split at h
    · next hrole =>
      split at h
      · next hread =>
        cases h
        exact .number hrole hread
      · cases h
    · next hrole =>
      cases h
      exact .text hrole
    · next hrole =>
      cases h
      exact .logical hrole
    · next hrole =>
      split at h
      · next hread =>
        cases h
        obtain ⟨qualifier, code, kind, htext, hqualifier, hkind, rfl⟩ := errorLiteral?_eq_some_iff.mp hread
        exact .error hrole htext hqualifier hkind
      · cases h
    · next hrole =>
      split at h
      · next hread =>
        cases h
        exact .reference hrole hread
      · cases h
    · cases h
  · intro h
    cases h with
    | number hrole hread => simp only [hrole, hread]
    | text hrole => simp only [hrole]
    | logical hrole => simp only [hrole]
    | error hrole htext hqualifier hkind =>
      simp only [hrole, errorLiteral?_eq_some_iff.mpr ⟨_, _, _, htext, hqualifier, hkind, rfl⟩]
    | reference hrole hread => simp only [hrole, hread]

/-! ### The levels -/

/-- The binary operators of each level, the loosest first. -/
def operatorsAt : Nat → List BinaryOperator
  | 0 => [.equal, .different, .less, .greater, .atMost, .atLeast]
  | 1 => [.join]
  | 2 => [.plus, .minus]
  | 3 => [.times, .divide]
  | 4 => [.power]
  | _ => []

/-- Tokens that are a part of a formula, and its tree, if each operand is a leaf. Operands joined by the operators
of a level and of all tighter ones are `joined level`; beyond the levels there are signs and percent signs. -/
inductive Generates (leaf : Token → Expr → Prop) : (p : Part) → List Token → p.Tree → Prop
  | operand {t : Token} {x : Expr} : t.kind = .operand → leaf t x → Generates leaf .primary [t] x
  | group {o c : Token} {ts : List Token} {x : Expr} : o.Brackets .group .opening →
      Generates leaf (.joined 0) ts x → c.Brackets .group .closing → Generates leaf .primary (o :: ts ++ [c]) x
  | constant {o c : Token} {name : List Char} : o.Brackets .call .opening → o.text.toList = name ++ ['('] →
      c.Brackets .call .closing → Generates leaf .primary [o, c] (.call (some o.span) (String.ofList name) [])
  | call {o c : Token} {name : List Char} {ts : List Token} {xs : List Expr} : o.Brackets .call .opening →
      o.text.toList = name ++ ['('] → ts ≠ [] → Generates leaf .arguments ts xs → c.Brackets .call .closing →
      Generates leaf .primary (o :: ts ++ [c]) (.call (some o.span) (String.ofList name) xs)
  | plain {ts : List Token} {x : Expr} : Generates leaf .primary ts x → Generates leaf .postfixed ts x
  | percent {ts : List Token} {t : Token} {x : Expr} : Generates leaf .postfixed ts x → t.kind = .postfixSign →
      t.text = "%" → Generates leaf .postfixed (ts ++ [t]) (.unary (some t.span) .percent x)
  | unsigned {ts : List Token} {x : Expr} : Generates leaf .postfixed ts x → Generates leaf .signed ts x
  | sign {op : UnaryOperator} {t : Token} {ts : List Token} {x : Expr} : op ∈ [UnaryOperator.plus, .minus] →
      t.kind = .prefixSign → t.text = op.symbol → Generates leaf .signed ts x →
      Generates leaf .signed (t :: ts) (.unary (some t.span) op x)
  | tightest {ts : List Token} {x : Expr} : Generates leaf .signed ts x → Generates leaf (.joined 5) ts x
  | tighter {level : Nat} {ts : List Token} {x : Expr} : level < 5 → Generates leaf (.joined (level + 1)) ts x →
      Generates leaf (.joined level) ts x
  | join {level : Nat} {op : BinaryOperator} {t : Token} {ts us : List Token} {x y : Expr} :
      op ∈ operatorsAt level → t.kind = .infixSign → t.text = op.symbol → Generates leaf (.joined level) ts x →
      Generates leaf (.joined (level + 1)) us y →
      Generates leaf (.joined level) (ts ++ t :: us) (.binary (some t.span) op x y)
  | leftOut : Generates leaf .argument [] omitted
  | given {ts : List Token} {x : Expr} : Generates leaf (.joined 0) ts x → Generates leaf .argument ts x
  | last {ts : List Token} {x : Expr} : Generates leaf .argument ts x → Generates leaf .arguments ts [x]
  | more {t : Token} {ts us : List Token} {x : Expr} {xs : List Expr} : Generates leaf .argument ts x →
      t.Brackets .separator .argument → Generates leaf .arguments us xs →
      Generates leaf .arguments (ts ++ t :: us) (x :: xs)

/-- Tokens that are generated whatever their operands stand for. -/
def IsPhrase (ts : List Token) : Prop :=
  ∃ x, Generates (fun _ _ => True) (.joined 0) ts x

variable {leaf : Token → Expr → Prop}

theorem operatorsAt_eq_nil {level : Nat} (h : 5 ≤ level) : operatorsAt level = [] := by
  match level with
  | _ + 5 => rfl

theorem lt_of_mem_operatorsAt {level : Nat} {op : BinaryOperator} (h : op ∈ operatorsAt level) : level < 5 := by
  rw [← Nat.not_le]
  intro hlevel
  rw [operatorsAt_eq_nil hlevel] at h
  cases h

/-- The operators of a level are those of one strength. -/
theorem level?_of_mem_operatorsAt :
    ∀ level < 5, ∀ op ∈ operatorsAt level, op ∈ BinaryOperator.all ∧ op.level? = some (level + 1) := by
  decide

theorem exists_operatorsAt : ∀ op ∈ BinaryOperator.all,
    ∃ level < 5, op.level? = some (level + 1) ∧ op ∈ operatorsAt level := by
  decide

/-- What a tight level generates every looser one generates too. -/
theorem Generates.loosen {level tight : Nat} {ts : List Token} {x : Expr} (htight : tight ≤ 5) (hle : level ≤ tight)
    (h : Generates leaf (.joined tight) ts x) : Generates leaf (.joined level) ts x := by
  by_cases heq : level = tight
  · rw [heq]
    exact h
  · have hlt : level < tight := Nat.lt_of_le_of_ne hle heq
    exact .tighter (Nat.lt_of_lt_of_le hlt htight) (h.loosen htight hlt)
termination_by tight - level

/-! ### The grammar by levels and the grammar by strengths -/

/-- What the parts of the grammar by levels are in the grammar by strengths. -/
def Part.Derived (l : Locale) : (p : Part) → List Token → p.Tree → Prop
  | .joined level, ts, x => Derives l (.joined (level + 1)) ts x
  | .primary, ts, x => Derives l .primary ts x
  | .postfixed, ts, x => Derives l .postfixed ts x
  | .signed, ts, x => Derives l .signed ts x
  | .argument, ts, x => Derives l .argument ts x
  | .arguments, ts, xs => Derives l .arguments ts xs

theorem functionName_eq {t : Token} {name : List Char} (h : t.text.toList = name ++ ['(']) :
    functionName t = String.ofList name := by
  rw [functionName, h, List.dropLast_concat]

/-- An operator of a level joins at the strength of the level. -/
theorem isInfix_of_mem_operatorsAt {level : Nat} {op : BinaryOperator} {t : Token} (hop : op ∈ operatorsAt level)
    (hkind : t.kind = .infixSign) (htext : t.text = op.symbol) :
    t.IsInfix (level + 1) ∧ BinaryOperator.ofSymbol t.text = op := by
  obtain ⟨hall, hlevel⟩ := level?_of_mem_operatorsAt level (lt_of_mem_operatorsAt hop) op hop
  refine ⟨⟨hkind, ?_⟩, ?_⟩
  · unfold Token.strength?
    rw [if_neg (by rw [hkind]; decide), htext, BinaryOperator.strength?_symbol op hall, hlevel]
    rfl
  · rw [htext]
    exact BinaryOperator.ofSymbol_symbol op hall

/-- An operator of the language that joins at a strength belongs to the level of that strength. -/
theorem exists_of_isInfix {level : Nat} {t : Token} (hlexed : t.IsLexed l) (h : t.IsInfix level) :
    ∃ below op, level = below + 1 ∧ op ∈ operatorsAt below ∧ t.text = op.symbol ∧
      BinaryOperator.ofSymbol t.text = op := by
  obtain ⟨op, hall, htext⟩ := hlexed.infixed h.1
  obtain ⟨below, -, hlevel, hop⟩ := exists_operatorsAt op hall
  obtain ⟨hjoins, hsymbol⟩ := isInfix_of_mem_operatorsAt hop h.1 htext
  refine ⟨below, op, ?_, hop, htext, hsymbol⟩
  rw [← h.level_eq, hjoins.level_eq]

theorem exists_sign_of_isLexed {t : Token} (hlexed : t.IsLexed l) (hkind : t.kind = .prefixSign) :
    ∃ op ∈ [UnaryOperator.plus, .minus], t.text = op.symbol := by
  rcases hlexed.prefixed hkind with htext | htext
  · exact ⟨.plus, by simp, htext⟩
  · exact ⟨.minus, by simp, htext⟩

theorem derived_of_generates {p : Part} {ts : List Token} {x : p.Tree} (h : Generates (Leaf l) p ts x) :
    p.Derived l ts x := by
  induction h with
  | operand hkind hleaf => exact .operand hkind (ofOperand_eq_ok_iff.mpr hleaf)
  | group ho _ hc ih => exact .group ho (Derives.mono ih (Nat.zero_le _)) hc
  | @constant o c name ho hname hc =>
    rw [← functionName_eq hname]
    exact .constant ho hc
  | @call o c name ts xs ho hname hne _ hc ih =>
    rw [← functionName_eq hname]
    exact .call ho hne ih hc
  | plain _ ih => exact .plain ih
  | @percent ts t x _ hkind htext ih =>
    have hderives := Derives.percent ih hkind
    rw [htext] at hderives
    exact hderives
  | unsigned _ ih => exact .unsigned ih
  | @sign op t ts x hop hkind htext _ ih =>
    have hderives := Derives.sign hkind ih
    rw [htext, UnaryOperator.ofSymbol_symbol_of_mem op hop] at hderives
    exact hderives
  | tightest _ ih => exact .single ih
  | @tighter level ts x _ _ ih => exact Derives.mono ih (Nat.le_succ _)
  | @join level op t ts us x y hop hkind htext _ _ ihleft ihright =>
    obtain ⟨hjoins, hsymbol⟩ := isInfix_of_mem_operatorsAt hop hkind htext
    have hderives := Derives.join hjoins (Nat.le_refl _) ihleft ihright
    rw [hsymbol] at hderives
    exact hderives
  | leftOut => exact .leftOut
  | given _ ih => exact .given (Derives.mono ih (Nat.zero_le _))
  | last _ ih => exact .last ih
  | more _ ht _ ih ihmore => exact .more ih ht ihmore

/-- What the parts of the grammar by strengths are in the grammar by levels: what joins at a strength is generated
at every level of that strength or below it. -/
def Part.Generated (l : Locale) : (p : Part) → List Token → p.Tree → Prop
  | .joined least, ts, x => ∀ level ≤ 5, level + 1 ≤ least ∨ level = 0 → Generates (Leaf l) (.joined level) ts x
  | .primary, ts, x => Generates (Leaf l) .primary ts x
  | .postfixed, ts, x => Generates (Leaf l) .postfixed ts x
  | .signed, ts, x => Generates (Leaf l) .signed ts x
  | .argument, ts, x => Generates (Leaf l) .argument ts x
  | .arguments, ts, xs => Generates (Leaf l) .arguments ts xs

theorem generated_of_derives {p : Part} {ts : List Token} {x : p.Tree} (h : Derives l p ts x)
    (hlexed : ∀ t ∈ ts, t.IsLexed l) : p.Generated l ts x := by
  induction h with
  | operand hkind hleaf => exact .operand hkind (ofOperand_eq_ok_iff.mp hleaf)
  | group ho _ hc ih =>
    have hinner := ih fun t ht => hlexed t (by simp [ht])
    exact .group ho (hinner 0 (Nat.zero_le _) (Or.inr rfl)) hc
  | @constant o c ho hc =>
    obtain ⟨name, hname, -⟩ := (hlexed o (by simp)).called ho
    rw [functionName_eq hname]
    exact .constant ho hname hc
  | @call o c ts xs ho hne _ hc ih =>
    obtain ⟨name, hname, -⟩ := (hlexed o (by simp)).called ho
    rw [functionName_eq hname]
    exact .call ho hname hne (ih fun t ht => hlexed t (by simp [ht])) hc
  | plain _ ih => exact .plain (ih hlexed)
  | @percent ts t x _ hkind ih =>
    have htext : t.text = "%" := (hlexed t (by simp)).postfixed hkind
    have hgenerates := Generates.percent (ih fun t ht => hlexed t (by simp [ht])) hkind htext
    rw [htext]
    exact hgenerates
  | unsigned _ ih => exact .unsigned (ih hlexed)
  | @sign t ts x hkind _ ih =>
    have hrest := ih fun t ht => hlexed t (by simp [ht])
    obtain ⟨op, hop, htext⟩ := exists_sign_of_isLexed (hlexed t (by simp)) hkind
    rw [htext, UnaryOperator.ofSymbol_symbol_of_mem op hop]
    exact .sign hop hkind htext hrest
  | single _ ih =>
    intro level hlevel _
    exact (Generates.tightest (ih hlexed)).loosen (Nat.le_refl 5) hlevel
  | @join least strength t ts us x y hjoins hle _ _ ihleft ihright =>
    intro level _ hlevel
    obtain ⟨below, op, rfl, hop, htext, hsymbol⟩ := exists_of_isInfix (hlexed t (by simp)) hjoins
    have hbelow : below < 5 := lt_of_mem_operatorsAt hop
    have hleft := ihleft (fun t ht => hlexed t (by simp [ht])) below (Nat.le_of_lt hbelow) (Or.inl (Nat.le_refl _))
    have hright := ihright (fun t ht => hlexed t (by simp [ht])) (below + 1) hbelow (Or.inl (Nat.le_refl _))
    have hjoin := Generates.join hop hjoins.1 htext hleft hright
    rw [← hsymbol] at hjoin
    -- The operation is generated at the level of its operator, and the level asked for is no tighter.
    exact hjoin.loosen (Nat.le_of_lt hbelow) (by omega)
  | leftOut => exact .leftOut
  | given _ ih => exact .given (ih hlexed 0 (Nat.zero_le _) (Or.inr rfl))
  | last _ ih => exact .last (ih hlexed)
  | more _ ht _ ih ihmore =>
    exact .more (ih fun t ht => hlexed t (by simp [ht])) ht (ihmore fun t ht => hlexed t (by simp [ht]))

/-- **On tokens of the lexer the two grammars agree.** -/
theorem generates_leaf_iff {ts : List Token} {x : Expr} (hlexed : ∀ t ∈ ts, t.IsLexed l) :
    Generates (Leaf l) (.joined 0) ts x ↔ Derives l (.joined 0) ts x :=
  ⟨fun h => Derives.mono (derived_of_generates h) (Nat.zero_le _),
    fun h => generated_of_derives h hlexed 0 (Nat.zero_le _) (Or.inr rfl)⟩

/-! ### Operands apart -/

theorem Generates.mono {leaf' : Token → Expr → Prop} (hleaf : ∀ t x, leaf t x → leaf' t x) {p : Part}
    {ts : List Token} {x : p.Tree} (h : Generates leaf p ts x) : Generates leaf' p ts x := by
  induction h with
  | operand hkind hx => exact .operand hkind (hleaf _ _ hx)
  | group ho _ hc ih => exact .group ho ih hc
  | constant ho hname hc => exact .constant ho hname hc
  | call ho hname hne _ hc ih => exact .call ho hname hne ih hc
  | plain _ ih => exact .plain ih
  | percent _ hkind htext ih => exact .percent ih hkind htext
  | unsigned _ ih => exact .unsigned ih
  | sign hop hkind htext _ ih => exact .sign hop hkind htext ih
  | tightest _ ih => exact .tightest ih
  | tighter hlevel _ ih => exact .tighter hlevel ih
  | join hop hkind htext _ _ ihleft ihright => exact .join hop hkind htext ihleft ihright
  | leftOut => exact .leftOut
  | given _ ih => exact .given ih
  | last _ ih => exact .last ih
  | more _ ht _ ih ihmore => exact .more ih ht ihmore

/-- Every operand among tokens stands for a leaf. -/
def HasLeaves (leaf : Token → Expr → Prop) (ts : List Token) : Prop :=
  ∀ t ∈ ts, t.kind = .operand → ∃ x, leaf t x

theorem hasLeaves_append {ts us : List Token} :
    HasLeaves leaf (ts ++ us) ↔ HasLeaves leaf ts ∧ HasLeaves leaf us :=
  List.forall_mem_append

theorem hasLeaves_cons {t : Token} {ts : List Token} (ht : t.kind ≠ .operand) :
    HasLeaves leaf (t :: ts) ↔ HasLeaves leaf ts := by
  refine List.forall_mem_cons.trans (and_iff_right fun hkind => absurd hkind ht)

theorem hasLeaves_nil : HasLeaves leaf [] :=
  fun _ ht => absurd ht List.not_mem_nil

/-- Brackets are no operands. -/
theorem hasLeaves_bracketed {kind : TokenKind} {o c : Token} {ts : List Token} (ho : o.Brackets kind .opening)
    (hc : c.Brackets kind .closing) (hkind : kind ≠ .operand) :
    HasLeaves leaf (o :: ts ++ [c]) ↔ HasLeaves leaf ts := by
  rw [List.cons_append, hasLeaves_cons (ho.1 ▸ hkind), hasLeaves_append, hasLeaves_cons (hc.1 ▸ hkind)]
  exact and_iff_left hasLeaves_nil

/-- The operands of what is generated are leaves. -/
theorem Generates.hasLeaves {p : Part} {ts : List Token} {x : p.Tree} (h : Generates leaf p ts x) :
    HasLeaves leaf ts := by
  induction h with
  | operand _ hx =>
    intro t ht _
    rw [List.mem_singleton.mp ht]
    exact ⟨_, hx⟩
  | group ho _ hc ih => exact (hasLeaves_bracketed ho hc nofun).mpr ih
  | constant ho _ hc => exact (hasLeaves_bracketed ho hc nofun).mpr hasLeaves_nil
  | call ho _ _ _ hc ih => exact (hasLeaves_bracketed ho hc nofun).mpr ih
  | plain _ ih => exact ih
  | percent _ hkind _ ih => exact hasLeaves_append.mpr ⟨ih, (hasLeaves_cons (by simp [hkind])).mpr hasLeaves_nil⟩
  | unsigned _ ih => exact ih
  | sign _ hkind _ _ ih => exact (hasLeaves_cons (by simp [hkind])).mpr ih
  | tightest _ ih => exact ih
  | tighter _ _ ih => exact ih
  | join _ hkind _ _ _ ihleft ihright =>
    exact hasLeaves_append.mpr ⟨ihleft, (hasLeaves_cons (by simp [hkind])).mpr ihright⟩
  | leftOut => exact hasLeaves_nil
  | given _ ih => exact ih
  | last _ ih => exact ih
  | more _ ht _ ih ihmore => exact hasLeaves_append.mpr ⟨ih, (hasLeaves_cons (by simp [ht.1])).mpr ihmore⟩

/-- **What is generated stays so when its operands stand for something else.** -/
theorem generates_of_leaves {leaf' : Token → Expr → Prop} {p : Part} {ts : List Token} {x : p.Tree}
    (h : Generates leaf p ts x) (hleaves : HasLeaves leaf' ts) : ∃ y, Generates leaf' p ts y := by
  induction h with
  | operand hkind _ =>
    obtain ⟨y, hy⟩ := hleaves _ List.mem_cons_self hkind
    exact ⟨y, .operand hkind hy⟩
  | group ho _ hc ih =>
    obtain ⟨y, hy⟩ := ih ((hasLeaves_bracketed ho hc nofun).mp hleaves)
    exact ⟨y, .group ho hy hc⟩
  | constant ho hname hc => exact ⟨_, .constant ho hname hc⟩
  | call ho hname hne _ hc ih =>
    obtain ⟨ys, hys⟩ := ih ((hasLeaves_bracketed ho hc nofun).mp hleaves)
    exact ⟨_, .call ho hname hne hys hc⟩
  | plain _ ih =>
    obtain ⟨y, hy⟩ := ih hleaves
    exact ⟨y, .plain hy⟩
  | percent _ hkind htext ih =>
    obtain ⟨y, hy⟩ := ih (hasLeaves_append.mp hleaves).1
    exact ⟨_, .percent hy hkind htext⟩
  | unsigned _ ih =>
    obtain ⟨y, hy⟩ := ih hleaves
    exact ⟨y, .unsigned hy⟩
  | sign hop hkind htext _ ih =>
    obtain ⟨y, hy⟩ := ih ((hasLeaves_cons (by simp [hkind])).mp hleaves)
    exact ⟨_, .sign hop hkind htext hy⟩
  | tightest _ ih =>
    obtain ⟨y, hy⟩ := ih hleaves
    exact ⟨y, .tightest hy⟩
  | tighter hlevel _ ih =>
    obtain ⟨y, hy⟩ := ih hleaves
    exact ⟨y, .tighter hlevel hy⟩
  | join hop hkind htext _ _ ihleft ihright =>
    obtain ⟨hleft, hright⟩ := hasLeaves_append.mp hleaves
    obtain ⟨y, hy⟩ := ihleft hleft
    obtain ⟨z, hz⟩ := ihright ((hasLeaves_cons (by simp [hkind])).mp hright)
    exact ⟨_, .join hop hkind htext hy hz⟩
  | leftOut => exact ⟨_, .leftOut⟩
  | given _ ih =>
    obtain ⟨y, hy⟩ := ih hleaves
    exact ⟨y, .given hy⟩
  | last _ ih =>
    obtain ⟨y, hy⟩ := ih hleaves
    exact ⟨[y], .last hy⟩
  | more _ ht _ ih ihmore =>
    obtain ⟨hfirst, hmore⟩ := hasLeaves_append.mp hleaves
    obtain ⟨y, hy⟩ := ih hfirst
    obtain ⟨ys, hys⟩ := ihmore ((hasLeaves_cons (by simp [ht.1])).mp hmore)
    exact ⟨y :: ys, .more hy ht hys⟩

/-- Tokens are generated from valid operands just if they are a phrase and their operands are valid. -/
theorem exists_generates_iff {ts : List Token} :
    (∃ x, Generates leaf (.joined 0) ts x) ↔ HasLeaves leaf ts ∧ IsPhrase ts := by
  constructor
  · rintro ⟨x, hx⟩
    exact ⟨hx.hasLeaves, x, hx.mono fun _ _ _ => trivial⟩
  · rintro ⟨hleaves, x, hx⟩
    exact generates_of_leaves hx hleaves

/-! ### Formulas -/

/-- The tokens of a formula are as the lexer makes them. -/
theorem isLexed_of_tokenize (hl : l.HasPlainSeparator) {text : String} (hstart : text.toList.head? = some '=')
    {tokens : List Token} (htokens : tokenize l text = .ok tokens) : ∀ t ∈ tokens, t.IsLexed l := by
  obtain ⟨cs, hcs⟩ : ∃ cs, text.toList = '=' :: cs := List.head?_eq_some_iff.mp hstart
  obtain rfl : text = String.ofList ('=' :: cs) := by rw [← hcs, String.ofList_toList]
  obtain ⟨ws, -, hsplits, -, rfl⟩ := (tokenize_eq_ok_iff hl).mp htokens
  exact hsplits.isLexed (fun kind hmem => absurd hmem List.not_mem_nil) 1

/-- **A formula is read just if its operands are valid and its tokens are put together as the grammar of operators
says**, blanks aside; and what is read is the tree of the derivation, which is therefore the only one. -/
theorem ofTokens_iff_generates (hl : l.IsBuiltIn) {text : String} (hstart : text.toList.head? = some '=')
    {tokens ts : List Token} (htokens : tokenize l text = .ok tokens)
    (hts : ts = tokens.filter fun t => t.kind != .blank) :
    ((∃ x, ofTokens l tokens = .ok x) ↔
        (∀ t ∈ ts, t.kind = .operand → ∃ x, Leaf l t x) ∧ IsPhrase ts) ∧
      (∀ x, ofTokens l tokens = .ok x ↔ Generates (Leaf l) (.joined 0) ts x) ∧
      ∀ x y, Generates (Leaf l) (.joined 0) ts x → Generates (Leaf l) (.joined 0) ts y → x = y := by
  have hlexed : ∀ t ∈ tokens, t.IsLexed l := isLexed_of_tokenize hl.hasPlainSeparator hstart htokens
  have hread : ∀ x, ofTokens l tokens = .ok x ↔ Generates (Leaf l) (.joined 0) ts x := by
    intro x
    rw [generates_leaf_iff fun t ht => hlexed t (List.mem_filter.mp (hts ▸ ht)).1, hts]
    exact ofTokens_eq_ok_iff (hasOperators_of_isLexed hlexed) fun t ht => (hlexed t ht).notLiteral
  refine ⟨?_, hread, ?_⟩
  · rw [← HasLeaves, ← exists_generates_iff]
    exact exists_congr hread
  · intro x y hx hy
    exact Except.ok.inj (((hread x).mpr hx).symm.trans ((hread y).mpr hy))

/-- A formula with signs, percent signs, a group, a call whose first argument is left out, the code of an error
behind a sheet, and operators of all levels. -/
def allLevels : String := "= -f(;\"a\")%%^b2*c3 - A1 & (Sheet2!#REF! <= true)"

theorem generates_allLevels : Locale.IsBuiltIn .commaDecimal ∧ allLevels.toList.head? = some '=' ∧
    ∃ tokens, tokenize .commaDecimal allLevels = .ok tokens ∧
      IsPhrase (tokens.filter fun t => t.kind != .blank) ∧
      ∃ x, ofTokens .commaDecimal tokens = .ok x ∧
        Generates (Leaf .commaDecimal) (.joined 0) (tokens.filter fun t => t.kind != .blank) x := by
  have hl : Locale.IsBuiltIn .commaDecimal := Or.inr rfl
  have hstart : allLevels.toList.head? = some '=' := by decide
  have hread : (tokenize .commaDecimal allLevels).toOption.any
      (fun tokens => (ofTokens .commaDecimal tokens).toOption.isSome) = true := by decide +kernel
  refine ⟨hl, hstart, ?_⟩
  cases htokens : tokenize .commaDecimal allLevels with
  | error e =>
    rw [htokens] at hread
    cases hread
  | ok tokens =>
    rw [htokens] at hread
    obtain ⟨haccepts, hgenerates, -⟩ := ofTokens_iff_generates hl hstart htokens rfl
    cases hx : ofTokens .commaDecimal tokens with
    | error e =>
      dsimp only [Except.toOption, Option.any_some] at hread
      rw [hx] at hread
      cases hread
    | ok x => exact ⟨tokens, rfl, (haccepts.mp ⟨x, hx⟩).2, x, hx, (hgenerates x).mp hx⟩

/-- Signs bind tighter than powers, and operators of one level group to the left. -/
example : (parse .invariant "=-A1%^B1*C1-D1-E1&F1=G1").toOption.map describe =
    some ("BinaryOp(=, BinaryOp(&, BinaryOp(-, BinaryOp(-, BinaryOp(*, BinaryOp(^, " ++
      "UnaryOp(-, UnaryOp(%, Reference(A1))), Reference(B1)), Reference(C1)), Reference(D1)), " ++
      "Reference(E1)), Reference(F1)), Reference(G1))") := by
  decide +kernel

end Expr

end Spreadsheet
