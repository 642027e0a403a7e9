import Spreadsheet.Proofs.Printing

/-!
# Round trip: canonical formulas

What was parsed is printed, part by part along its derivation: signs, percent signs, operators and calls
put the words of their parts together, a group is printed as what it contains, and an argument that was
left out is printed as nothing.

* `Expr.isPrinted_of_derives` — every part of a formula is printed.
* `Expr.round_trip` — the canonical text of a formula is parsed to the same tree, and is canonical.
-/

namespace Spreadsheet

open Lexer

variable {l : Locale}

namespace Expr

/-! ### Parts that are put together -/

/-- Signs of the language. -/
theorem ofSymbol_prefixed {s : String} (h : s = "+" ∨ s = "-") :
    ∃ c, (c = '+' ∨ c = '-') ∧ (UnaryOperator.ofSymbol s).symbol.toList = [c] ∧
      UnaryOperator.ofSymbol s ≠ .percent := by
  rcases h with rfl | rfl
  · exact ⟨'+', Or.inl rfl, rfl, by decide⟩
  · exact ⟨'-', Or.inr rfl, rfl, by decide⟩

theorem isPrinted_signed {x : Expr} (h : IsPrintedTree l x) {s : String} (hs : s = "+" ∨ s = "-")
    (span : Option Span) : IsPrintedTree l (.unary span (.ofSymbol s) x) := by
  obtain ⟨c, hc, hsymbol, hpercent⟩ := ofSymbol_prefixed hs
  have hbare : x.bindsSuchThat (· < prefixStrength.level) = false → ∀ ts y, Derived l x ts y →
      Derives l .signed ts y := by
    intro hbinds ts y hy
    refine hy.signed ?_
    cases x with
    | binary _ op _ _ =>
      have hlevel : ∀ op ∈ BinaryOperator.all, op.level?.any (· < prefixStrength.level) = true := by decide
      have hnot : op.level?.any (· < prefixStrength.level) = false := hbinds
      rw [hlevel op hy.1] at hnot
      cases hnot
    | _ => rfl
  obtain ⟨ws, hsources, hoperand, hderives⟩ := h.wrap hbare fun _ _ hy => .unsigned (.plain hy)
  refine ⟨.signing c :: ws, ?_, hoperand.signed hc, fun offset => ?_⟩
  · rw [Word.sources_cons, hsources, body, if_neg hpercent, String.toList_append, hsymbol]
    rfl
  · obtain ⟨y, hy, hsame⟩ := hderives (offset + Text.byteLength (Word.signing c).source)
    have htext : String.ofList [c] = s := by
      rw [← hsymbol, String.ofList_toList, UnaryOperator.symbol_ofSymbol]
    refine ⟨.unary (some ((Word.signing c).token offset).span) (.ofSymbol s) y, ?_, ?_⟩
    · rw [derived_unary, if_neg hpercent]
      have hsign := Derives.sign (t := (Word.signing c).token offset) rfl hy
      have hname : ((Word.signing c).token offset).text = s := htext
      rw [hname] at hsign
      exact hsign
    · rw [bare, bare, hsame]

theorem isPrinted_percent {x : Expr} (h : IsPrintedTree l x) (span : Option Span) :
    IsPrintedTree l (.unary span .percent x) := by
  obtain ⟨ws, hsources, hoperand, hderives⟩ :=
    h.wrap (fun hbare _ _ hy => hy.postfixed hbare) fun _ _ hy => .plain hy
  refine ⟨ws ++ [Word.percent], ?_, hoperand.percented, fun offset => ?_⟩
  · rw [Word.sources_append, hsources, body, if_pos rfl, String.toList_append]
    rfl
  · obtain ⟨y, hy, hsame⟩ := hderives offset
    rw [Word.tokens_append]
    exact ⟨.unary _ .percent y, .percent hy rfl, by rw [bare, bare, hsame]⟩

theorem isPrinted_binary {x y : Expr} (hx : IsPrintedTree l x) (hy : IsPrintedTree l y) {op : BinaryOperator}
    (hop : op ∈ BinaryOperator.all) (span : Option Span) : IsPrintedTree l (.binary span op x y) := by
  obtain ⟨ws, hsources, hoperand, hderives⟩ :=
    hx.wrap (fun hbare _ _ h => h.joined hbare) fun _ _ h => .single (.unsigned (.plain h))
  have hright : y.bindsSuchThat (· ≤ op.level?.getD 0) = false → ∀ ts z, Derived l y ts z →
      Derives l (.joined (op.level?.getD 0 + 1)) ts z := by
    intro hbinds ts z h
    refine h.joined ?_
    rw [← hbinds]
    exact congrArg _ (funext fun level => decide_eq_decide.mpr Nat.lt_succ_iff)
  obtain ⟨us, hsources', hoperand', hderives'⟩ :=
    hy.wrap hright fun _ _ h => .single (.unsigned (.plain h))
  refine ⟨ws ++ .joining op :: us, ?_, hoperand.joined hop hoperand', fun offset => ?_⟩
  · rw [Word.sources_append, Word.sources_cons, hsources, hsources', body, String.toList_append,
      String.toList_append, List.append_assoc]
    rfl
  · obtain ⟨z, hz, hsame⟩ := hderives offset
    obtain ⟨z', hz', hsame'⟩ := hderives' (offset + Text.byteLength (Word.sources ws) +
      Text.byteLength (Word.joining op).source)
    rw [Word.tokens_append, Word.tokens]
    generalize ht : (Word.joining op).token (offset + Text.byteLength (Word.sources ws)) = t
    have htext : t.text = op.symbol := by
      rw [← ht]
      exact String.ofList_toList
    have hkind : t.kind = .infixSign := by rw [← ht]; rfl
    have hinfixed : t.IsInfix (op.level?.getD 0) := by
      refine ⟨hkind, ?_⟩
      unfold Token.strength?
      rw [if_neg (by rw [hkind]; decide), htext]
      exact BinaryOperator.strength?_symbol op hop
    have hjoin := Derives.join hinfixed (Nat.le_refl _) hz hz'
    rw [htext, BinaryOperator.ofSymbol_symbol op hop] at hjoin
    exact ⟨.binary _ op z z', ⟨hop, hjoin⟩, by rw [bare, bare, hsame, hsame']⟩

/-! ### Arguments -/

/-- The texts of arguments consist of words that derive them, spans and spellings aside. -/
def IsPrintedList (l : Locale) (xs : List Expr) (ws : List Word) : Prop :=
  Word.sources ws = (bodies l xs).toList ∧ IsArguments l ws ∧
    ∀ offset, ∃ ys, Derives l .arguments (Word.tokens offset ws) ys ∧ bareAll ys = bareAll xs

/-- The text of an argument, which may be left out. -/
def IsPrintedArgument (l : Locale) (x : Expr) (ws : List Word) : Prop :=
  Word.sources ws = (x.body l).toList ∧ IsArguments l ws ∧
    ∀ offset, ∃ y, Derives l .argument (Word.tokens offset ws) y ∧ y.bare = x.bare

theorem isPrintedArgument_omitted : IsPrintedArgument l omitted [] :=
  ⟨rfl, .leftOut, fun _ => ⟨omitted, .leftOut, rfl⟩⟩

theorem isPrintedArgument_given {x : Expr} (h : IsPrintedTree l x) :
    ∃ ws, ws ≠ [] ∧ IsPrintedArgument l x ws := by
  obtain ⟨ws, hsources, hoperand, hderives⟩ := h
  refine ⟨ws, ?_, hsources, .given hoperand, fun offset => ?_⟩
  · rintro rfl
    obtain ⟨c, cs, hcs, -⟩ := hoperand.starts
    cases hcs
  · obtain ⟨y, hy, hsame⟩ := hderives offset
    exact ⟨y, .given hy.grouped, hsame⟩

theorem isPrintedList_last {x : Expr} {ws : List Word} (h : IsPrintedArgument l x ws) :
    IsPrintedList l [x] ws := by
  refine ⟨h.1, h.2.1, fun offset => ?_⟩
  obtain ⟨y, hy, hsame⟩ := h.2.2 offset
  refine ⟨[y], .last hy, ?_⟩
  rw [bareAll_eq_map, bareAll_eq_map, List.map_singleton, List.map_singleton, hsame]

theorem isPrintedList_more {x : Expr} {xs : List Expr} {ws us : List Word} (hne : xs ≠ [])
    (h : IsPrintedArgument l x ws) (h' : IsPrintedList l xs us) :
    IsPrintedList l (x :: xs) (ws ++ .separating l :: us) := by
  obtain ⟨hsources, harguments, hderives⟩ := h
  obtain ⟨hsources', harguments', hderives'⟩ := h'
  refine ⟨?_, harguments.more harguments', fun offset => ?_⟩
  · obtain ⟨y, ys, rfl⟩ := List.exists_cons_of_ne_nil hne
    have hseparator : l.separator.toString.toList = [l.separator] :=
      String.toList_singleton _
    rw [Word.sources_append, Word.sources_cons, hsources, hsources', bodies, String.toList_append,
      String.toList_append, hseparator, List.append_assoc]
    rfl
  · obtain ⟨y, hy, hsame⟩ := hderives offset
    obtain ⟨ys, hys, hsame'⟩ := hderives' (offset + Text.byteLength (Word.sources ws) +
      Text.byteLength (Word.separating l).source)
    rw [Word.tokens_append, Word.tokens]
    exact ⟨y :: ys, .more hy ⟨rfl, rfl⟩ hys, by rw [bareAll, bareAll, hsame, hsame']⟩

theorem functionName_calling (name : List Char) (offset : Nat) :
    functionName ((Word.calling name).token offset) = String.ofList name := by
  unfold functionName Word.calling Word.token
  dsimp only
  rw [String.toList_ofList, List.dropLast_concat]

theorem isPrinted_call {name : List Char} (hname : Gathers l name) (hne : name ≠ []) (span : Option Span)
    {xs : List Expr} {ws : List Word} (hxs : ws ≠ []) (h : IsPrintedList l xs ws) :
    IsPrintedTree l (.call span (String.ofList name) xs) := by
  obtain ⟨hsources, harguments, hderives⟩ := h
  refine ⟨.calling name :: (ws ++ [Word.closing .call]), ?_, harguments.called hname hne, fun offset => ?_⟩
  · rw [Word.sources_cons, Word.sources_append, hsources, body, String.toList_append, String.toList_append,
      String.toList_append, String.toList_ofList, List.append_assoc]
    rfl
  · obtain ⟨ys, hys, hsame⟩ := hderives (offset + Text.byteLength (Word.calling name).source)
    have hnonempty : Word.tokens (offset + Text.byteLength (Word.calling name).source) ws ≠ [] := by
      obtain ⟨w, ws', rfl⟩ := List.exists_cons_of_ne_nil hxs
      exact List.cons_ne_nil _ _
    rw [Word.tokens, Word.tokens_append]
    refine ⟨.call _ (functionName ((Word.calling name).token offset)) ys,
      .call ⟨rfl, rfl⟩ hnonempty hys ⟨rfl, rfl⟩, ?_⟩
    rw [bare, bare, hsame, functionName_calling]

theorem isPrinted_constant {name : List Char} (hname : Gathers l name) (hne : name ≠ [])
    (span : Option Span) : IsPrintedTree l (.call span (String.ofList name) []) := by
  refine ⟨.calling name :: ([] ++ [Word.closing .call]), ?_, IsArguments.leftOut.called hname hne, fun offset => ?_⟩
  · rw [Word.sources_cons, body, String.toList_append, String.toList_append, String.toList_append,
      String.toList_ofList]
    simp [Word.calling, Word.closing, Word.source, Word.sources, bodies]
  · refine ⟨.call _ (functionName ((Word.calling name).token offset)) [], .constant ⟨rfl, rfl⟩ ⟨rfl, rfl⟩, ?_⟩
    rw [bare, bare, functionName_calling]

/-! ### Whatever derives is printed -/

/-- What it means that a part of a formula is printed. -/
def Part.IsPrinted (l : Locale) : (p : Part) → List Token → p.Tree → Prop
  | .argument, ts, x => ∃ ws, (ts ≠ [] → ws ≠ []) ∧ IsPrintedArgument l x ws
  | .arguments, ts, xs => xs ≠ [] ∧ ∃ ws, (ts ≠ [] → ws ≠ []) ∧ IsPrintedList l xs ws
  | .primary, _, x | .postfixed, _, x | .signed, _, x | .joined _, _, x => IsPrintedTree l x

/-- **Every part of a formula is printed** as words that derive it again. -/
theorem isPrinted_of_derives (hl : l.IsBuiltIn) {p : Part} {ts : List Token} {x : p.Tree}
    (h : Derives l p ts x) (hts : ∀ t ∈ ts, t.IsLexed l) : p.IsPrinted l ts x := by
  induction h with
  | operand hkind hleaf => exact isPrinted_of_ofOperand hl (hts _ List.mem_cons_self) hkind hleaf
  | @group o c ts x _ _ _ ih =>
    exact ih fun t ht => hts t (List.mem_cons_of_mem o (List.mem_append_left [c] ht))
  | @constant o c ho _ =>
    obtain ⟨name, htext, hname, hne⟩ := (hts o List.mem_cons_self).called ho
    have hfunction : functionName o = String.ofList name := by
      rw [functionName, htext, List.dropLast_concat]
    show IsPrintedTree l _
    rw [hfunction]
    exact isPrinted_constant hname hne _
  | @call o c ts xs ho hne _ _ ih =>
    obtain ⟨name, htext, hname, hnonempty⟩ := (hts o List.mem_cons_self).called ho
    have hfunction : functionName o = String.ofList name := by
      rw [functionName, htext, List.dropLast_concat]
    obtain ⟨-, ws, hws, hlist⟩ :=
      ih fun t ht => hts t (List.mem_cons_of_mem o (List.mem_append_left [c] ht))
    show IsPrintedTree l _
    rw [hfunction]
    exact isPrinted_call hname hnonempty _ (hws hne) hlist
  | plain _ ih => exact ih hts
  | @percent ts t x _ ht ih =>
    have hoperand := ih fun t' ht' => hts t' (List.mem_append_left [t] ht')
    have htext := (hts t (List.mem_append_right ts List.mem_cons_self)).postfixed ht
    show IsPrintedTree l _
    rw [htext]
    exact isPrinted_percent hoperand _
  | unsigned _ ih => exact ih hts
  | @sign t ts x ht _ ih =>
    have hoperand := ih fun t' ht' => hts t' (List.mem_cons_of_mem t ht')
    exact isPrinted_signed hoperand ((hts t List.mem_cons_self).prefixed ht) _
  | single _ ih => exact ih hts
  | @join least level t ts us x y hinfixed _ _ _ ih ih' =>
    have hleft := ih fun t' ht' => hts t' (List.mem_append_left (t :: us) ht')
    have hright := ih' fun t' ht' => hts t' (List.mem_append_right ts (List.mem_cons_of_mem t ht'))
    obtain ⟨op, hop, htext⟩ := (hts t (List.mem_append_right ts List.mem_cons_self)).infixed hinfixed.1
    show IsPrintedTree l _
    rw [htext, BinaryOperator.ofSymbol_symbol op hop]
    exact isPrinted_binary hleft hright hop _
  | leftOut => exact ⟨[], fun hne => absurd rfl hne, isPrintedArgument_omitted⟩
  | given _ ih =>
    obtain ⟨ws, hne, hargument⟩ := isPrintedArgument_given (ih hts)
    exact ⟨ws, fun _ => hne, hargument⟩
  | last _ ih =>
    obtain ⟨ws, hws, hargument⟩ := ih hts
    exact ⟨List.cons_ne_nil _ _, ws, hws, isPrintedList_last hargument⟩
  | @more t ts us x xs _ _ _ ih ih' =>
    obtain ⟨ws, -, hargument⟩ := ih fun t' ht' => hts t' (List.mem_append_left (t :: us) ht')
    obtain ⟨hxs, ws', -, hlist⟩ :=
      ih' fun t' ht' => hts t' (List.mem_append_right ts (List.mem_cons_of_mem t ht'))
    exact ⟨List.cons_ne_nil _ _, _, fun _ => by simp, isPrintedList_more hxs hargument hlist⟩

/-! ### Canonical texts -/

theorem binaryLevel?_bare (x : Expr) : x.bare.binaryLevel? = x.binaryLevel? := by
  cases x <;> rfl

theorem isSigned_bare (x : Expr) : x.bare.isSigned = x.isSigned := by
  cases x <;> rfl

theorem bindsSuchThat_bare (x : Expr) (test : Nat → Bool) :
    x.bare.bindsSuchThat test = x.bindsSuchThat test :=
  congrArg (fun level => Option.any test level) x.binaryLevel?_bare

mutual

/-- Neither spans nor spellings are printed. -/
theorem body_bare (x : Expr) : x.bare.body l = x.body l := by
  match x with
  | .literal _ _ | .reference _ _ _ => rfl
  | .unary _ op operand =>
    rw [bare, body, body, body_bare operand, binaryLevel?_bare, isSigned_bare, bindsSuchThat_bare]
  | .binary _ op left right =>
    rw [bare, body, body, body_bare left, body_bare right, bindsSuchThat_bare, bindsSuchThat_bare]
  | .call _ name xs => rw [bare, body, body, bodies_bareAll xs]

theorem bodies_bareAll (xs : List Expr) : bodies l (bareAll xs) = bodies l xs := by
  match xs with
  | [] => rfl
  | [x] =>
    rw [bodies]
    exact body_bare x
  | x :: y :: xs =>
    have hrest := bodies_bareAll (y :: xs)
    rw [bareAll] at hrest
    rw [bareAll, bareAll, bodies, bodies, body_bare x, hrest]

end

/-- Trees that are the same but for spans and spellings are printed alike. -/
theorem print_eq_of_bare_eq {x y : Expr} (h : x.bare = y.bare) : x.print l = y.print l := by
  rw [print, print, ← body_bare x, ← body_bare y, h]

/-- The tree of a text is printed, whether the text is a formula or not. -/
theorem isPrinted_of_parse (hl : l.IsBuiltIn) {text : String} {x : Expr} (h : Expr.parse l text = .ok x) :
    IsPrintedTree l x := by
  have hseparator := hl.hasPlainSeparator
  have hascii : ¬128 ≤ l.separator.toNat := Nat.not_le.mpr hseparator.isAscii
  obtain ⟨cs, rfl⟩ : ∃ cs, text = String.ofList cs := ⟨text.toList, String.ofList_toList.symm⟩
  match cs with
  | [] =>
    unfold parse tokenize at h
    rw [if_neg hascii, String.toList_ofList] at h
    cases h
  | c :: cs =>
    by_cases hc : c = '='
    · subst hc
      obtain ⟨ws, -, hsplits, -, hderives⟩ := (parse_eq_ok_iff hseparator).mp h
      have hlexed := hsplits.isLexed (fun kind hmem => absurd hmem List.not_mem_nil) 1
      exact isPrinted_of_derives hl hderives fun t ht => hlexed t (List.mem_filter.mp ht).1
    · unfold parse tokenize at h
      rw [if_neg hascii, String.toList_ofList] at h
      dsimp only at h
      rw [if_neg hc] at h
      unfold ofTokens at h
      cases h
      exact isPrinted_text hseparator _ _

/-- What is printed is parsed. -/
theorem parse_print_of_isPrinted (hl : l.HasPlainSeparator) {x : Expr} (h : IsPrintedTree l x) :
    ∃ y, Expr.parse l (x.print l) = .ok y ∧ y.bare = x.bare := by
  obtain ⟨ws, hsources, hoperand, hderives⟩ := h
  obtain ⟨y, hy, hsame⟩ := hderives 1
  have htext : x.print l = String.ofList ('=' :: (x.body l).toList) := by
    rw [String.ofList_cons, String.ofList_toList]
    rfl
  have hblank : (Word.tokens 1 ws).filter (fun t => t.kind != .blank) = Word.tokens 1 ws := by
    refine List.filter_eq_self.mpr fun t ht => ?_
    obtain ⟨w, hw, hkind⟩ := Word.exists_of_mem_tokens ht
    rw [hkind, bne_iff_ne]
    exact hoperand.notBlank w hw
  refine ⟨y, ?_, hsame⟩
  rw [htext]
  refine (parse_eq_ok_iff hl).mpr ⟨ws, hsources, hoperand.splits _ _ rfl ends_nil, ?_, ?_⟩
  · rw [hoperand.after]
  · rw [hblank]
    exact hy.grouped

/-- **The text of a formula is read back.** In either of the built-in locales, what is printed for a text
that was parsed is parsed to the same tree, spans and spellings aside; so a canonical text is its own
canonical text. -/
theorem round_trip (hl : l.IsBuiltIn) {text : String} {x : Expr} (h : Expr.parse l text = .ok x) :
    (∃ y, Expr.parse l (x.print l) = .ok y ∧ y.bare = x.bare) ∧
      ∃ c, canonical l text = .ok c ∧ canonical l c = .ok c := by
  obtain ⟨y, hy, hsame⟩ := parse_print_of_isPrinted hl.hasPlainSeparator (isPrinted_of_parse hl h)
  refine ⟨⟨y, hy, hsame⟩, x.print l, ?_, ?_⟩
  · rw [canonical, h]
    rfl
  · rw [canonical, hy]
    exact congrArg Except.ok (print_eq_of_bare_eq hsame)

theorem exists_of_canonical {text c : String} (h : canonical l text = .ok c) :
    ∃ x, Expr.parse l text = .ok x ∧ x.print l = c := by
  unfold canonical at h
  cases hx : Expr.parse l text with
  | error e =>
    rw [hx] at h
    cases h
  | ok x =>
    rw [hx] at h
    cases h
    exact ⟨x, rfl, rfl⟩

/-- A formula with an argument left out, a sign, a decimal comma and a sheet name in quotes. -/
theorem round_trip_mixed : ∃ x,
    Expr.parse .commaDecimal "= -F(; 1,50)^b2% & 'My sheet'!c$3" = .ok x ∧
      x.print .commaDecimal = "=-F(;1,5)^B2%&'My sheet'!C$3" ∧
      (∃ y, Expr.parse .commaDecimal (x.print .commaDecimal) = .ok y ∧ y.bare = x.bare) ∧
      ∃ c, canonical .commaDecimal "= -F(; 1,50)^b2% & 'My sheet'!c$3" = .ok c ∧
        canonical .commaDecimal c = .ok c := by
  have hcanonical : canonical .commaDecimal "= -F(; 1,50)^b2% & 'My sheet'!c$3" =
      .ok "=-F(;1,5)^B2%&'My sheet'!C$3" := by decide +kernel
  obtain ⟨x, hx, hprint⟩ := exists_of_canonical hcanonical
  exact ⟨x, hx, hprint, round_trip (Or.inr rfl) hx⟩

end Expr

end Spreadsheet
