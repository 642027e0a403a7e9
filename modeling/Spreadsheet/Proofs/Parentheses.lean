import Spreadsheet.Proofs.RoundTrip

/-!
# Parentheses: a canonical formula has as few as its tree needs

A tree can be written in many ways, and each of them has at least as many opening parentheses as the canonical
one (`Expr.openings_print_le`). So a canonical formula that loses a parenthesis is no formula any more, or one of
another tree (`Expr.bare_ne_of_unwrapped`).

The count goes along the grammar. `Part.wraps` says which trees a part of a formula can only hold in parentheses,
and these are the ones around which the printer puts them: `Expr.openings_le_of_derives` has one case for each
rule. Parentheses of calls, in texts and in quoted names are counted as well; a tree has them in all its
spellings, while a spelling may have more of them than the canonical one, in the qualifier of an error code or of
the second corner of a range.
-/

namespace Spreadsheet

open Lexer

/-- The number of opening parentheses in a text. -/
abbrev openings (s : String) : ℕ := s.toList.count '('

theorem openings_append (s t : String) : openings (s ++ t) = openings s + openings t := by
  rw [openings, String.toList_append, List.count_append]

theorem openings_ofList (cs : List Char) : openings (String.ofList cs) = cs.count '(' := by
  rw [openings, String.toList_ofList]

theorem openings_eq_zero {s : String} (h : '(' ∉ s.toList) : openings s = 0 :=
  List.count_eq_zero.mpr h

/-! ### Quotes -/

/-- Doubling characters of another kind adds no parentheses. -/
theorem count_doubled (quote : Char) (hquote : quote ≠ '(') (cs : List Char) :
    (cs.flatMap fun c => if c = quote then [quote, quote] else [c]).count '(' = cs.count '(' := by
  induction cs with
  | nil => rfl
  | cons c cs ih =>
    rw [List.flatMap_cons, List.count_append, ih, List.count_cons]
    split
    · next hc =>
      subst hc
      simp [hquote]
    · simp [Nat.add_comm, List.count_cons]

theorem openings_quoted (s : String) : openings (quoted s) = openings s := by
  have hdoubled := count_doubled '\'' (by decide) s.toList
  rw [openings, Reference.toList_quoted, List.count_cons, List.count_append, doubleQuotes, hdoubled]
  rfl

theorem openings_sheetQualifier (s : String) : openings (sheetQualifier s) = openings s := by
  unfold sheetQualifier
  split
  · rfl
  · exact openings_quoted s

theorem count_readQuoted {cs name rest : List Char} (h : readQuoted cs = some (name, rest)) :
    name.count '(' + rest.count '(' = cs.count '(' := by
  induction cs using readQuoted.induct generalizing name with
  | case1 => cases h
  | case2 cs ih =>
    rw [readQuoted] at h
    obtain ⟨⟨inner, after⟩, hinner, heq⟩ := Option.map_eq_some_iff.mp h
    cases heq
    have hcount := ih hinner
    simpa [List.count_cons] using hcount
  | case3 cs hcs =>
    rw [readQuoted] at h
    · cases h
      simp
    · exact hcs
  | case4 c cs hquote htwice ih =>
    rw [readQuoted] at h
    · obtain ⟨⟨inner, after⟩, hinner, heq⟩ := Option.map_eq_some_iff.mp h
      cases heq
      have hcount := ih hinner
      simp only [List.count_cons]
      omega
    · exact hquote
    · exact htwice

namespace Expr

theorem count_singleQuotes (cs : List Char) : (singleQuotes cs).count '(' = cs.count '(' := by
  induction cs using singleQuotes.induct with
  | case1 cs ih =>
    rw [singleQuotes]
    simpa [List.count_cons] using ih
  | case2 c cs hnot ih =>
    rw [singleQuotes]
    · rw [List.count_cons, List.count_cons, ih]
    · exact hnot
  | case3 => rfl

theorem openings_unquote_le (s : String) : openings (unquote s) ≤ openings s := by
  unfold unquote
  split
  · next cs hcs =>
    split
    · rw [openings_ofList, count_singleQuotes, openings, hcs]
      exact ((List.dropLast_sublist cs).trans (List.sublist_cons_self _ _)).count_le _
    · exact Nat.le_refl _
  · exact Nat.le_refl _

theorem openings_literalText (l : Locale) (s : String) : openings (literalText l (.text s)) = openings s := by
  have hdoubled := count_doubled '"' (by decide) s.toList
  rw [openings, toList_literalText, List.count_cons, List.count_append, doubleTextQuotes, hdoubled]
  rfl

end Expr

/-! ### References -/

theorem Grid.Address.openings_text (a : Grid.Address) : openings a.text = 0 := by
  rw [Grid.Address.text, openings_ofList, List.count_eq_zero]
  exact not_mem_chars (by decide) (by decide)

/-- The opening parentheses of a qualifier and of what follows it. -/
def Qualified.openings : Qualified → ℕ
  | .quotedName name => Spreadsheet.openings name
  | .address sheet rest => Spreadsheet.openings (Reference.qualifierText sheet) + rest.count '('

/-- A qualifier is read with all its parentheses. -/
theorem openings_splitQualifier {cs : List Char} {q : Qualified} (h : splitQualifier cs = .ok q) :
    q.openings = cs.count '(' := by
  have hsheet : ∀ name rest : List Char, (Qualified.address (some (String.ofList name)) rest).openings =
      name.count '(' + rest.count '(' := by
    intro name rest
    rw [Qualified.openings, Reference.qualifierText, openings_append, openings_sheetQualifier, openings_ofList]
    rfl
  unfold splitQualifier at h
  dsimp only at h
  split at h
  · next inner =>
    have hquote : ('\'' :: inner).count '(' = inner.count '(' := List.count_cons_of_ne (by decide)
    rw [hquote]
    split at h
    · cases h
    · next name hread =>
      cases h
      rw [← count_readQuoted hread]
      exact openings_ofList name
    · next name c rest hread =>
      split at h
      · next hmark =>
        cases h
        obtain ⟨rfl, -⟩ := hmark
        have hbang : ('!' :: rest).count '(' = rest.count '(' := List.count_cons_of_ne (by decide)
        rw [hsheet, ← count_readQuoted hread, hbang]
      · cases h
  · have hsplit := List.takeWhile_append_dropWhile (p := (· ≠ '!')) (l := cs)
    split at h
    · cases h
      exact Nat.zero_add _
    · next c rest hrest =>
      split at h
      · cases h
        have hmark := List.head?_dropWhile_not (· ≠ '!') cs
        rw [hrest] at hmark
        obtain rfl : c = '!' := by simpa using hmark
        have hbang : ('!' :: rest).count '(' = rest.count '(' := List.count_cons_of_ne (by decide)
        rw [hsheet, ← hbang, ← hrest, ← List.count_append, hsplit]
      · cases h

/-- A reference is written with no more parentheses than it was read from. -/
theorem Reference.openings_text_le {s : String} {r : Reference} (h : Reference.parse s = .ok r) :
    openings r.text ≤ openings s := by
  have hname : ∀ name, openings (Reference.name name).text = openings name := by
    intro name
    rw [Reference.text]
    split
    · rfl
    · exact openings_quoted name
  unfold Reference.parse at h
  dsimp only at h
  split at h
  · cases h
  · next inner hsplit =>
    split at h
    · cases h
      rw [hname]
      exact Nat.le_of_eq (openings_splitQualifier hsplit)
    · cases h
  · next sheet rest hsplit =>
    have hcount : openings (qualifierText sheet) + rest.count '(' = openings s := openings_splitQualifier hsplit
    split at h
    · split at h
      · cases h
      · cases h
      · split at h
        · split at h
          · next a b _ _ =>
            cases h
            rw [Reference.text, openings_append, openings_append, openings_append, Grid.Address.openings_text,
              Grid.Address.openings_text, show openings ":" = 0 from rfl]
            omega
          · cases h
        · cases h
    · next hdrop =>
      split at h
      · next a _ =>
        cases h
        rw [Reference.text, openings_append, Grid.Address.openings_text]
        omega
      · split at h
        · next hplain =>
          cases h
          have hall := List.takeWhile_append_dropWhile (p := (· ≠ ':')) (l := rest)
          rw [hdrop, List.append_nil] at hall
          rw [hname, hall, openings_ofList]
          omega
        · cases h

/-! ### What the printer wraps -/

namespace Expr

variable {l : Locale}

/-- Whether a tree is an operation. -/
def isOperation : Expr → Bool
  | .unary _ _ _ | .binary _ _ _ _ => true
  | _ => false

/-- Whether a part of a formula can hold a tree only in parentheses. -/
def Part.wraps : (p : Part) → p.Tree → Bool
  | .primary, x => x.isOperation
  | .postfixed, x => x.binaryLevel?.isSome || x.isSigned
  | .signed, x => x.binaryLevel?.isSome
  | .joined level, x => x.bindsSuchThat (· < level)
  | .argument, _ | .arguments, _ => false

/-- The text of what a part of a formula holds. -/
def Part.text (l : Locale) : (p : Part) → p.Tree → String
  | .arguments, xs => bodies l xs
  | .primary, x | .postfixed, x | .signed, x | .joined _, x | .argument, x => x.body l

/-- The opening parentheses of a part of a formula, with those around it. -/
def Part.openings (l : Locale) (p : Part) (x : p.Tree) : ℕ :=
  Spreadsheet.openings (wrap (p.wraps x) (p.text l x))

theorem openings_wrap (needed : Bool) (s : String) :
    Spreadsheet.openings (wrap needed s) = Spreadsheet.openings s + needed.toNat := by
  cases needed
  · rfl
  · rw [wrap, if_pos rfl, openings_append, openings_append]
    exact Nat.add_comm 1 _

/-- A part that wraps less has no more parentheses. -/
theorem openings_wrap_mono {needed needed' : Bool} (h : needed = true → needed' = true) (s : String) :
    Spreadsheet.openings (wrap needed s) ≤ Spreadsheet.openings (wrap needed' s) := by
  rw [openings_wrap, openings_wrap]
  cases needed
  · exact Nat.add_le_add_left (Nat.zero_le _) _
  · rw [h rfl]

theorem isOperation_of_binaryLevel? {x : Expr} (h : x.binaryLevel?.isSome = true) : x.isOperation = true := by
  cases x with
  | literal | reference | call => cases h
  | unary | binary => rfl

theorem isOperation_of_isSigned {x : Expr} (h : x.isSigned = true) : x.isOperation = true := by
  cases x with
  | literal | reference | call | binary => cases h
  | unary => rfl

theorem isSome_of_bindsSuchThat {x : Expr} {test : ℕ → Bool} (h : x.bindsSuchThat test = true) :
    x.binaryLevel?.isSome = true := by
  unfold bindsSuchThat at h
  cases hlevel : x.binaryLevel? with
  | none =>
    rw [hlevel] at h
    cases h
  | some level => rfl

/-- A leaf is written with no more parentheses than it was read from. -/
theorem openings_leaf_le (hl : l.IsBuiltIn) {t : Token} {x : Expr} (ht : t.IsLexed l) (hkind : t.kind = .operand)
    (h : ofOperand l t = .ok x) : Part.openings l .primary x ≤ Spreadsheet.openings t.text := by
  unfold ofOperand at h
  split at h
  · next hrole =>
    split at h
    · next v hv =>
      cases h
      obtain ⟨c, hc, hdigit⟩ := ht.number hkind hrole
      obtain ⟨n, hproper, hchars, -⟩ :=
        Locale.numeral_of_numberText hl (Locale.isUnsigned_of_readNumber hc hdigit hv)
      have hnone : '(' ∉ (l.numberText v).toList := by
        rw [hchars]
        intro hmem
        rcases hproper.of_mem_chars hmem with hcase | hmark
        · cases hcase
        · rcases hl with rfl | rfl <;> cases hmark
      exact (openings_eq_zero hnone).trans_le (Nat.zero_le _)
    · cases h
  · cases h
    exact (openings_literalText l _).trans_le (openings_unquote_le _)
  · cases h
    generalize Text.sameAscii t.text "TRUE" = b
    have hnone : Part.openings l .primary (.literal (some t.span) (.boolean b)) = 0 := by
      show Spreadsheet.openings (Value.booleanText b) = 0
      cases b <;> rfl
    rw [hnone]
    exact Nat.zero_le _
  · split at h
    · next e _ =>
      cases h
      have hnone : Part.openings l .primary (.literal (some t.span) (.error e)) = 0 := by
        show Spreadsheet.openings e.kind.code = 0
        cases e.kind <;> rfl
      rw [hnone]
      exact Nat.zero_le _
    · cases h
  · split at h
    · next r hr =>
      cases h
      exact Reference.openings_text_le hr
    · cases h
  · cases h

/-- A call has its own parenthesis and those of its arguments. -/
theorem openings_call {o : Token} {name : List Char} (h : o.text.toList = name ++ ['(']) (xs : List Expr) :
    Part.openings l .primary (.call (some o.span) (functionName o) xs) =
      Spreadsheet.openings o.text + Part.openings l .arguments xs := by
  show Spreadsheet.openings (body l (.call (some o.span) (functionName o) xs)) = _ + Spreadsheet.openings (bodies l xs)
  have htext : Spreadsheet.openings o.text = Spreadsheet.openings (String.ofList name) + 1 := by
    rw [openings_ofList, openings, h, List.count_append]
    rfl
  rw [body, openings_append, openings_append, openings_append, functionName, h, List.dropLast_concat, htext]
  rfl

/-- A percent sign stands behind its operand as a part of the same kind. -/
theorem openings_percent (span : Option Span) (x : Expr) :
    Part.openings l .postfixed (.unary span .percent x) = Part.openings l .postfixed x := by
  show Spreadsheet.openings (body l (.unary span .percent x)) = Spreadsheet.openings (wrap _ (x.body l))
  rw [body, if_pos rfl, openings_append]
  rfl

/-- A sign stands in front of a part of the same kind. -/
theorem openings_sign {s : String} (hs : s = "+" ∨ s = "-") (span : Option Span) (x : Expr) :
    Part.openings l .signed (.unary span (.ofSymbol s) x) ≤ Part.openings l .signed x := by
  obtain ⟨c, hc, hsymbol, hpercent⟩ := ofSymbol_prefixed hs
  have hnone : Spreadsheet.openings (UnaryOperator.ofSymbol s).symbol = 0 := by
    rw [openings, hsymbol]
    rcases hc with rfl | rfl <;> rfl
  show Spreadsheet.openings (body l (.unary span (.ofSymbol s) x)) ≤ Spreadsheet.openings (wrap _ (x.body l))
  rw [body, if_neg hpercent, openings_append, hnone, Nat.zero_add]
  exact openings_wrap_mono isSome_of_bindsSuchThat _

theorem openings_symbol : ∀ op ∈ BinaryOperator.all, Spreadsheet.openings op.symbol = 0 := by
  decide

/-- An operator of a level stands between a part of its level and one of the next. -/
theorem openings_binary {op : BinaryOperator} (hop : op ∈ BinaryOperator.all) {least level : ℕ}
    (hlevel : op.level? = some level) (hle : least ≤ level) (span : Option Span) (x y : Expr) :
    Part.openings l (.joined least) (.binary span op x y) =
      Part.openings l (.joined level) x + Part.openings l (.joined (level + 1)) y := by
  have hbare : (Expr.binary span op x y).bindsSuchThat (· < least) = false := by
    show op.level?.any _ = false
    rw [hlevel, Option.any_some, decide_eq_false_iff_not]
    exact Nat.not_lt.mpr hle
  have hright : y.bindsSuchThat (· ≤ level) = y.bindsSuchThat (· < level + 1) :=
    congrArg _ (funext fun k => decide_eq_decide.mpr Nat.lt_succ_iff.symm)
  show Spreadsheet.openings
      (wrap ((Expr.binary span op x y).bindsSuchThat (· < least)) (body l (.binary span op x y))) =
    Spreadsheet.openings (wrap _ (x.body l)) + Spreadsheet.openings (wrap (y.bindsSuchThat (· < level + 1)) (y.body l))
  rw [hbare, wrap, if_neg Bool.false_ne_true, body, hlevel, openings_append, openings_append, openings_symbol op hop,
    Option.getD_some, hright]
  rfl

/-- An argument is followed by a separator and the other arguments. -/
theorem openings_arguments (hl : l.IsBuiltIn) (x : Expr) (xs : List Expr) :
    Part.openings l .arguments (x :: xs) = Part.openings l .argument x + Part.openings l .arguments xs := by
  show Spreadsheet.openings (bodies l (x :: xs)) = Spreadsheet.openings (x.body l) + Spreadsheet.openings (bodies l xs)
  match xs with
  | [] =>
    rw [bodies, bodies]
    rfl
  | y :: xs =>
    have hseparator : Spreadsheet.openings l.separator.toString = 0 := by
      rcases hl with rfl | rfl <;> rfl
    rw [bodies, openings_append, openings_append, hseparator]
    rfl

/-! ### Along the grammar -/

/-- The opening parentheses in the texts of tokens. -/
def tokenOpenings (ts : List Token) : ℕ := (ts.map fun t => Spreadsheet.openings t.text).sum

theorem tokenOpenings_cons (t : Token) (ts : List Token) :
    tokenOpenings (t :: ts) = Spreadsheet.openings t.text + tokenOpenings ts := List.sum_cons

theorem tokenOpenings_append (ts us : List Token) :
    tokenOpenings (ts ++ us) = tokenOpenings ts + tokenOpenings us := by
  rw [tokenOpenings, List.map_append, List.sum_append]
  rfl

/-- What the lexer promises about a token, and that a parenthesis which opens a group is one. -/
def IsParenthesized (l : Locale) (t : Token) : Prop :=
  t.IsLexed l ∧ (t.Brackets .group .opening → 1 ≤ Spreadsheet.openings t.text)

/-- **Every part of a formula has the parentheses that the printer writes**, including those around it. -/
theorem openings_le_of_derives (hl : l.IsBuiltIn) {p : Part} {ts : List Token} {x : p.Tree} (h : Derives l p ts x)
    (hts : ∀ t ∈ ts, IsParenthesized l t) : p.openings l x ≤ tokenOpenings ts := by
  induction h with
  | @operand t x hkind hleaf =>
    rw [tokenOpenings_cons]
    exact Nat.le_add_right_of_le (openings_leaf_le hl (hts t List.mem_cons_self).1 hkind hleaf)
  | @group o c ts x ho _ _ ih =>
    -- The group has one parenthesis more, and that is the most that anything can need around it.
    have hinner := ih fun t ht => hts t (List.mem_cons_of_mem o (List.mem_append_left [c] ht))
    have hopen := (hts o List.mem_cons_self).2 ho
    have hwrap := (x.isOperation).toNat_le
    rw [Part.openings, openings_wrap] at hinner ⊢
    rw [List.cons_append, tokenOpenings_cons, tokenOpenings_append]
    show Spreadsheet.openings (x.body l) + (x.isOperation).toNat ≤ _
    have hbody : Spreadsheet.openings (x.body l) ≤ tokenOpenings ts := Nat.le_of_add_right_le hinner
    omega
  | @constant o c ho _ =>
    obtain ⟨name, htext, -⟩ := (hts o List.mem_cons_self).1.called ho
    have hnone : Part.openings l .arguments [] = 0 := rfl
    rw [openings_call htext, tokenOpenings_cons, hnone]
    exact Nat.le_add_right _ _
  | @call o c ts xs ho _ _ _ ih =>
    obtain ⟨name, htext, -⟩ := (hts o List.mem_cons_self).1.called ho
    have harguments := ih fun t ht => hts t (List.mem_cons_of_mem o (List.mem_append_left [c] ht))
    rw [openings_call htext, List.cons_append, tokenOpenings_cons, tokenOpenings_append]
    omega
  | @plain ts x _ ih =>
    refine (openings_wrap_mono (fun hwraps => ?_) _).trans (ih hts)
    rcases Bool.or_eq_true_iff.mp hwraps with hbinary | hsigned
    · exact isOperation_of_binaryLevel? hbinary
    · exact isOperation_of_isSigned hsigned
  | @percent ts t x _ ht ih =>
    have hoperand := ih fun t' ht' => hts t' (List.mem_append_left [t] ht')
    have htext := (hts t (List.mem_append_right ts List.mem_cons_self)).1.postfixed ht
    have hpercent : UnaryOperator.ofSymbol "%" = .percent := rfl
    rw [htext, hpercent, openings_percent, tokenOpenings_append]
    exact Nat.le_add_right_of_le hoperand
  | unsigned _ ih =>
    exact (openings_wrap_mono (fun hwraps => Bool.or_eq_true_iff.mpr (Or.inl hwraps)) _).trans (ih hts)
  | @sign t ts x ht _ ih =>
    have hoperand := ih fun t' ht' => hts t' (List.mem_cons_of_mem t ht')
    have hsign := openings_sign (l := l) ((hts t List.mem_cons_self).1.prefixed ht) (some t.span) x
    rw [tokenOpenings_cons]
    exact Nat.le_add_left_of_le (hsign.trans hoperand)
  | single _ ih => exact (openings_wrap_mono isSome_of_bindsSuchThat _).trans (ih hts)
  | @join least level t ts us x y hinfixed hle _ _ ih ih' =>
    have hleft := ih fun t' ht' => hts t' (List.mem_append_left (t :: us) ht')
    have hright := ih' fun t' ht' => hts t' (List.mem_append_right ts (List.mem_cons_of_mem t ht'))
    obtain ⟨op, hop, htext⟩ :=
      (hts t (List.mem_append_right ts List.mem_cons_self)).1.infixed hinfixed.1
    have hlevel : op.level? = some level := by
      have hstrength := hinfixed.2
      unfold Token.strength? at hstrength
      rw [if_neg (by rw [hinfixed.1]; decide), htext] at hstrength
      rw [BinaryOperator.level?, hstrength]
      rfl
    rw [htext, BinaryOperator.ofSymbol_symbol op hop, openings_binary hop hlevel hle, tokenOpenings_append,
      tokenOpenings_cons]
    omega
  | leftOut => exact Nat.zero_le _
  | @given ts x _ ih =>
    have hinner := ih hts
    rw [Part.openings, openings_wrap] at hinner
    exact Nat.le_of_add_right_le hinner
  | @last ts x _ ih =>
    have hnone : Part.openings l .arguments [] = 0 := rfl
    rw [openings_arguments hl, hnone]
    exact ih hts
  | @more t ts us x xs _ _ _ ih ih' =>
    have hfirst := ih fun t' ht' => hts t' (List.mem_append_left (t :: us) ht')
    have hothers := ih' fun t' ht' => hts t' (List.mem_append_right ts (List.mem_cons_of_mem t ht'))
    rw [openings_arguments hl, tokenOpenings_append, tokenOpenings_cons]
    omega

/-! ### From words to texts -/

/-- The words of a formula have tokens that are parenthesized. -/
theorem isParenthesized_of_splits {x : Context} (hx : x.IsProper) {ws : List Word} {rest : List Char}
    (h : Splits l x ws rest) (offset : ℕ) : ∀ t ∈ Word.tokens offset ws, IsParenthesized l t := by
  induction h generalizing offset with
  | nil => exact fun t ht => absurd ht List.not_mem_nil
  | @cons x w ws rest hfits _ ih =>
    refine List.forall_mem_cons.mpr ⟨⟨hfits.isLexed hx offset, fun hopens => ?_⟩, ih (hx.next hfits) _⟩
    rw [Word.token, openings_ofList]
    cases hfits with
    | operand => exact absurd hopens.2 (operandRole_ne l _).1
    | group => exact Nat.le_refl 1
    | call => cases hopens.1
    | _ => cases hopens.2

/-- Tokens have no parentheses that the words do not have. -/
theorem tokenOpenings_le (ws : List Word) (offset : ℕ) :
    tokenOpenings ((Word.tokens offset ws).filter fun t => t.kind != .blank) ≤ (Word.sources ws).count '(' := by
  refine ((List.filter_sublist.map _).sum_le_sum (fun _ _ => Nat.zero_le _)).trans ?_
  induction ws generalizing offset with
  | nil => exact Nat.le_refl 0
  | cons w ws ih =>
    have hword : Spreadsheet.openings (w.token offset).text ≤ w.source.count '(' := by
      rw [Word.token, openings_ofList, Word.source, List.count_append]
      exact Nat.le_add_left _ _
    rw [Word.tokens, List.map_cons, List.sum_cons, Word.sources_cons, List.count_append]
    exact Nat.add_le_add hword (ih _)

/-- **No spelling of a formula has fewer opening parentheses than the canonical one.** -/
theorem openings_print_le (hl : l.IsBuiltIn) {text : String} {x : Expr} (h : Expr.parse l text = .ok x) :
    Spreadsheet.openings (x.print l) ≤ Spreadsheet.openings text := by
  have hseparator := hl.hasPlainSeparator
  have hascii : ¬128 ≤ l.separator.toNat := Nat.not_le.mpr hseparator.isAscii
  have hprint : Spreadsheet.openings (x.print l) = Spreadsheet.openings (x.body l) := by
    rw [print, openings_append]
    exact Nat.zero_add _
  obtain ⟨cs, rfl⟩ : ∃ cs, text = String.ofList cs := ⟨text.toList, String.ofList_toList.symm⟩
  rw [hprint]
  cases cs with
  | nil =>
    unfold parse tokenize at h
    rw [if_neg hascii, String.toList_ofList] at h
    cases h
  | cons c cs =>
    by_cases hc : c = '='
    · subst hc
      obtain ⟨ws, rfl, hsplits, -, hderives⟩ := (parse_eq_ok_iff hseparator).mp h
      have hproper : Context.IsProper {} := fun kind hmem => absurd hmem List.not_mem_nil
      have hparenthesized := isParenthesized_of_splits hproper hsplits 1
      have hle := openings_le_of_derives hl hderives fun t ht => hparenthesized t (List.mem_filter.mp ht).1
      rw [Part.openings, openings_wrap] at hle
      rw [openings_ofList, List.count_cons_of_ne (by decide)]
      exact (Nat.le_of_add_right_le hle).trans (tokenOpenings_le ws 1)
    · unfold parse tokenize at h
      rw [if_neg hascii, String.toList_ofList] at h
      dsimp only at h
      rw [if_neg hc] at h
      unfold ofTokens at h
      cases h
      exact (openings_literalText l _).le

/-- **A canonical formula can spare none of its parentheses.** Whatever opening parenthesis is taken out together
with a closing one behind it, as the two of a group, what remains is no formula or one of another tree. -/
theorem bare_ne_of_unwrapped (hl : l.IsBuiltIn) {x : Expr} {before inside behind : List Char}
    (hprint : (x.print l).toList = before ++ '(' :: (inside ++ ')' :: behind))
    {y : Expr} (hy : Expr.parse l (String.ofList (before ++ inside ++ behind)) = .ok y) : y.bare ≠ x.bare := by
  intro hsame
  have hfewest := openings_print_le hl hy
  rw [print_eq_of_bare_eq hsame, openings, hprint, openings_ofList] at hfewest
  have hclosing : (')' :: behind).count '(' = behind.count '(' := List.count_cons_of_ne (by decide)
  simp only [List.count_append, List.count_cons_self, hclosing] at hfewest
  omega

/-- Without the inner group of a difference, another difference is taken first. -/
theorem bare_ne_of_unwrapped_nested : ∃ x y,
    Expr.parse .commaDecimal "=(1 - (2,5 - 3)) * F((-5)%)" = .ok x ∧
      x.print .commaDecimal = "=(1-(2,5-3))*F((-5)%)" ∧
      Expr.parse .commaDecimal "=(1-2,5-3)*F((-5)%)" = .ok y ∧ y.bare ≠ x.bare := by
  have hcanonical : canonical .commaDecimal "=(1 - (2,5 - 3)) * F((-5)%)" = .ok "=(1-(2,5-3))*F((-5)%)" := by
    decide +kernel
  have hunwrapped : canonical .commaDecimal "=(1-2,5-3)*F((-5)%)" = .ok "=(1-2,5-3)*F((-5)%)" := by
    decide +kernel
  obtain ⟨x, hx, hprint⟩ := exists_of_canonical hcanonical
  obtain ⟨y, hy, -⟩ := exists_of_canonical hunwrapped
  refine ⟨x, y, hx, hprint, hy, ?_⟩
  refine @bare_ne_of_unwrapped .commaDecimal (Or.inr rfl) x "=(1-".toList "2,5-3".toList ")*F((-5)%)".toList ?_ y hy
  rw [hprint]
  decide

end Expr

end Spreadsheet
