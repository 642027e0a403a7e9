import Mathlib.Control.Monad.Basic
import Spreadsheet.Proofs.Lexing

/-!
# Covering: the tokens of a formula take up its text

The tokens of a formula stand side by side from the first byte behind the equals sign up to the end of the
text, and put side by side they are the text (`Token.IsLossless`). Two kinds of formulas are exceptions:

* an operand that ends in a colon is in no token when a text in double quotes stands directly behind it
  (`Token.DropsOperand`);
* the formula that is an equals sign and nothing else has no tokens, and what has no tokens is written as the
  empty text.

There is no other exception (`isLossless_iff`).
-/

namespace Spreadsheet

namespace Token

/-- Tokens that have bytes and stand side by side, from one byte up to another. -/
def Adjoin : (start : Nat) → List Token → (stop : Nat) → Prop
  | start, [], stop => start = stop
  | start, t :: ts, stop => (t.span.start = start ∧ start < t.span.stop) ∧ Adjoin t.span.stop ts stop

/-- Whether tokens stand side by side can be decided. -/
def decideAdjoin : (start : Nat) → (ts : List Token) → (stop : Nat) → Decidable (Adjoin start ts stop)
  | start, [], stop => inferInstanceAs (Decidable (start = stop))
  | start, t :: ts, stop =>
    have := decideAdjoin t.span.stop ts stop
    inferInstanceAs (Decidable ((t.span.start = start ∧ start < t.span.stop) ∧ Adjoin t.span.stop ts stop))

instance (start : Nat) (ts : List Token) (stop : Nat) : Decidable (Adjoin start ts stop) :=
  decideAdjoin start ts stop

/-- Tokens have all of a formula: they cover its bytes behind the equals sign without a gap and without an
overlap, and written out they are the formula. -/
structure IsLossless (text : String) (ts : List Token) : Prop where
  adjoin : Adjoin 1 ts (Text.byteLength text.toList)
  render_eq : render ts = text

instance (text : String) (ts : List Token) : Decidable (IsLossless text ts) :=
  decidable_of_iff (Adjoin 1 ts (Text.byteLength text.toList) ∧ render ts = text)
    ⟨fun h => ⟨h.1, h.2⟩, fun h => ⟨h.adjoin, h.render_eq⟩⟩

/-- An operand that ends in a colon, directly in front of a text, has no bytes in any token. -/
def DropsOperand (text : String) (ts : List Token) : Prop :=
  ∃ before operand after : List Char, ∃ t ∈ ts,
    text.toList = '=' :: (before ++ operand ++ t.text.toList ++ after) ∧
    (t.kind = .operand ∧ t.role = .text ∧ t.span.start = 1 + Text.byteLength (before ++ operand)) ∧
    operand.getLast? = some ':' ∧
    ∀ u ∈ ts, u.span.stop ≤ 1 + Text.byteLength before ∨ t.span.start ≤ u.span.start

/-- Of tokens that stand side by side, one has any byte between the first and the last. -/
theorem exists_covering {start stop : Nat} {ts : List Token} (h : Adjoin start ts stop) {byte : Nat}
    (hstart : start ≤ byte) (hstop : byte < stop) : ∃ t ∈ ts, t.span.start ≤ byte ∧ byte < t.span.stop := by
  induction ts generalizing start with
  | nil =>
    have heq : start = stop := h
    omega
  | cons t ts ih =>
    obtain ⟨⟨hfirst, -⟩, hrest⟩ := h
    by_cases hbyte : byte < t.span.stop
    · exact ⟨t, List.mem_cons_self, by omega, hbyte⟩
    · obtain ⟨u, hu, hcovers⟩ := ih hrest (Nat.not_lt.mp hbyte)
      exact ⟨u, List.mem_cons_of_mem t hu, hcovers⟩

/-- Tokens that have all of a formula leave out none of its operands. -/
theorem IsLossless.not_dropsOperand {text : String} {ts : List Token} (h : IsLossless text ts) :
    ¬DropsOperand text ts := by
  rintro ⟨before, operand, after, t, -, htext, ⟨-, -, hstart⟩, hcolon, hapart⟩
  -- The colon is the byte in front of the text.
  have hbytes : 1 ≤ Text.byteLength operand := by
    match operand with
    | [] => cases hcolon
    | c :: rest =>
      have hpos := c.utf8Size_pos
      simp only [Text.byteLength]
      omega
  have hlength : Text.byteLength text.toList =
      1 + Text.byteLength (before ++ operand ++ t.text.toList ++ after) := by
    rw [htext]
    rfl
  simp only [Text.byteLength_append] at hstart hlength
  have hbefore : 1 ≤ Text.byteLength before + Text.byteLength operand := by omega
  have hbehind : Text.byteLength before + Text.byteLength operand < Text.byteLength text.toList := by omega
  obtain ⟨u, hu, hfirst, hlast⟩ := exists_covering h.adjoin hbefore hbehind
  rcases hapart u hu with hfront | hbehind <;> omega

end Token

namespace Word

/-- A word has characters, and leaves none out but an operand that ends in a colon, in front of a text. -/
structure IsWhole (w : Word) : Prop where
  chars : w.chars ≠ []
  skipped : w.skipped = [] ∨ w.skipped.getLast? = some ':' ∧ w.kind = .operand ∧ w.role = .text

theorem isWhole_of_fits {l : Locale} {x : Lexer.Context} {w : Word} {rest : List Char} (h : Lexer.Fits l x w rest) :
    w.IsWhole := by
  cases h with
  | text hlost hlast _ _ => exact ⟨List.cons_ne_nil _ _, hlast.imp_right fun hcolon => ⟨hcolon, rfl, rfl⟩⟩
  | operand _ hne _ => exact ⟨hne, Or.inl rfl⟩
  | error _ _ _ => exact ⟨by simp, Or.inl rfl⟩
  | call _ _ => exact ⟨by simp, Or.inl rfl⟩
  | _ => exact ⟨List.cons_ne_nil _ _, Or.inl rfl⟩

theorem isWhole_of_splits {l : Locale} {x : Lexer.Context} {ws : List Word} {rest : List Char}
    (h : Lexer.Splits l x ws rest) : ∀ w ∈ ws, w.IsWhole := by
  induction h with
  | nil => exact fun w hw => absurd hw List.not_mem_nil
  | cons hfits _ ih => exact List.forall_mem_cons.mpr ⟨isWhole_of_fits hfits, ih⟩

/-- The tokens of words lie where the words lie. -/
theorem within_of_mem_tokens {offset : Nat} {ws : List Word} {t : Token} (h : t ∈ tokens offset ws) :
    offset ≤ t.span.start ∧ t.span.stop ≤ offset + Text.byteLength (sources ws) := by
  induction ws generalizing offset with
  | nil => cases h
  | cons w ws ih =>
    rw [sources_cons, Text.byteLength_append]
    rcases List.mem_cons.mp h with rfl | h
    · simp only [token, source, Text.byteLength_append]
      omega
    · have hrest := ih h
      omega

/-- Words that leave nothing out have tokens that stand side by side. -/
theorem adjoin_tokens {ws : List Word} (hwhole : ∀ w ∈ ws, w.IsWhole) (hskipped : ∀ w ∈ ws, w.skipped = [])
    (offset : Nat) : Token.Adjoin offset (tokens offset ws) (offset + Text.byteLength (sources ws)) := by
  induction ws generalizing offset with
  | nil => exact rfl
  | cons w ws ih =>
    obtain ⟨hw, hws⟩ := List.forall_mem_cons.mp hwhole
    obtain ⟨hnone, hrest⟩ := List.forall_mem_cons.mp hskipped
    have hpos : 0 < Text.byteLength w.chars := by
      obtain ⟨c, cs, hcs⟩ := List.exists_cons_of_ne_nil hw.chars
      have hc := c.utf8Size_pos
      rw [hcs, Text.byteLength]
      omega
    have hsource : w.source = w.chars := by
      rw [source, hnone, List.nil_append]
    have hspan : (w.token offset).span = ⟨offset, offset + Text.byteLength w.chars⟩ := by
      simp only [token, hnone, Text.byteLength, Nat.add_zero]
    have hnext := ih hws hrest (offset + Text.byteLength w.source)
    rw [hsource] at hnext
    rw [sources_cons, tokens, hsource, Text.byteLength_append, ← Nat.add_assoc]
    refine ⟨?_, ?_⟩
    · rw [hspan]
      exact ⟨rfl, Nat.lt_add_of_pos_right hpos⟩
    · rw [hspan]
      exact hnext

/-- Words that leave nothing out have the texts of their tokens for characters. -/
theorem join_tokens {ws : List Word} (hskipped : ∀ w ∈ ws, w.skipped = []) (offset : Nat) :
    String.join ((tokens offset ws).map Token.text) = String.ofList (sources ws) := by
  induction ws generalizing offset with
  | nil => rfl
  | cons w ws ih =>
    obtain ⟨hnone, hrest⟩ := List.forall_mem_cons.mp hskipped
    have hsource : w.source = w.chars := by
      rw [source, hnone, List.nil_append]
    rw [tokens, List.map_cons, String.join_cons, ih hrest, sources_cons, hsource, String.ofList_append]
    rfl

/-- The first word of a formula is not a whole text that is no formula. -/
theorem kind_ne_literal {l : Locale} {w : Word} {rest : List Char} (h : Lexer.Fits l {} w rest) :
    w.kind ≠ .literal := by
  cases h with
  | close hopeners => cases hopeners
  | sign _ _ =>
    unfold Lexer.Context.signKind
    dsimp only
    repeat' split
    all_goals decide
  | _ => exact fun hkind => TokenKind.noConfusion hkind

/-- Words that leave nothing out have tokens that are written as they were read, unless there are none. -/
theorem render_tokens {l : Locale} {ws : List Word} (hsplits : Lexer.Splits l {} ws []) (hne : ws ≠ [])
    (hskipped : ∀ w ∈ ws, w.skipped = []) : Token.render (tokens 1 ws) = String.ofList ('=' :: sources ws) := by
  have hjoin := join_tokens hskipped 1
  cases hsplits with
  | nil => exact absurd rfl hne
  | @cons _ w ws _ hfits _ =>
    have hkind : ¬(w.token 1).kind = .literal := kind_ne_literal hfits
    rw [tokens] at hjoin ⊢
    rw [Token.render, if_neg hkind, hjoin]
    exact (@String.ofList_append ['='] _).symm

/-- A word that leaves something out drops an operand. -/
theorem dropsOperand_tokens {ws : List Word} {w : Word} (hmem : w ∈ ws) (hwhole : w.IsWhole)
    (hskipped : w.skipped ≠ []) :
    Token.DropsOperand (String.ofList ('=' :: sources ws)) (tokens 1 ws) := by
  obtain ⟨hcolon, hkind, hrole⟩ := hwhole.skipped.resolve_left hskipped
  obtain ⟨front, back, rfl⟩ := List.append_of_mem hmem
  have htokens : tokens 1 (front ++ w :: back) = tokens 1 front ++
      w.token (1 + Text.byteLength (sources front)) ::
        tokens (1 + Text.byteLength (sources front) + Text.byteLength w.source) back := tokens_append 1 front _
  rw [htokens]
  refine ⟨sources front, w.skipped, sources back, _, List.mem_append_right _ List.mem_cons_self, ?_,
    ⟨hkind, hrole, ?_⟩, hcolon, fun u hu => ?_⟩
  · rw [String.toList_ofList, sources_append, sources_cons, source, token, String.toList_ofList]
    simp only [List.append_assoc]
  · rw [Text.byteLength_append, token, Nat.add_assoc]
  · rcases List.mem_append.mp hu with hu | hu
    · exact Or.inl (within_of_mem_tokens hu).2
    · right
      rcases List.mem_cons.mp hu with rfl | hu
      · exact Nat.le_refl _
      · have hbehind := (within_of_mem_tokens hu).1
        rw [source, Text.byteLength_append] at hbehind
        simp only [token]
        omega

end Word

/-- **The tokens of a formula have all of it**, unless it is an equals sign alone, or a text in double quotes
follows an operand that ends in a colon and the operand is lost. -/
theorem isLossless_iff {l : Locale} (hl : l.IsBuiltIn) {text : String} (hstart : text.toList.head? = some '=')
    {ts : List Token} (h : tokenize l text = .ok ts) :
    Token.IsLossless text ts ↔ text ≠ "=" ∧ ¬Token.DropsOperand text ts := by
  obtain ⟨cs, hcs⟩ := List.head?_eq_some_iff.mp hstart
  have htext : text = String.ofList ('=' :: cs) := by rw [← hcs, String.ofList_toList]
  subst htext
  obtain ⟨ws, rfl, hsplits, -, rfl⟩ := (tokenize_eq_ok_iff hl.hasPlainSeparator).mp h
  have hwhole := Word.isWhole_of_splits hsplits
  constructor
  · refine fun hlossless => ⟨fun hlone => ?_, hlossless.not_dropsOperand⟩
    have hnone : Word.sources ws = [] := by
      have hlist := congrArg String.toList hlone
      rw [String.toList_ofList] at hlist
      exact (List.cons.inj hlist).2
    have hempty : ws = [] := by
      match ws with
      | [] => rfl
      | w :: ws =>
        rw [Word.sources_cons, List.append_eq_nil_iff, Word.source, List.append_eq_nil_iff] at hnone
        exact absurd hnone.1.2 (hwhole w List.mem_cons_self).chars
    subst hempty
    exact absurd hlossless.render_eq (by decide)
  · rintro ⟨hlone, hdrops⟩
    have hskipped : ∀ w ∈ ws, w.skipped = [] := fun w hw =>
      Classical.byContradiction fun hsome => hdrops (Word.dropsOperand_tokens hw (hwhole w hw) hsome)
    have hne : ws ≠ [] := by
      rintro rfl
      exact hlone rfl
    constructor
    · rw [String.toList_ofList]
      exact Word.adjoin_tokens hwhole hskipped 1
    · exact Word.render_tokens hsplits hne hskipped

/-- A formula in which double quotes follow a colon inside a name and inside a text. -/
def quotedColons : String := "= -Sum('a:\"b'!A1:B2;\"x:\"\"y\") + 1,5E+3%"

theorem isLossless_quotedColons :
    Locale.IsBuiltIn .commaDecimal ∧ quotedColons.toList.head? = some '=' ∧
      ∃ ts, tokenize .commaDecimal quotedColons = .ok ts ∧ Token.IsLossless quotedColons ts ∧
        ¬Token.DropsOperand quotedColons ts := by
  have hl : Locale.IsBuiltIn .commaDecimal := Or.inr rfl
  have hstart : quotedColons.toList.head? = some '=' := by decide
  have hread : (tokenize .commaDecimal quotedColons).toOption.any
      (fun ts => decide (Token.IsLossless quotedColons ts)) = true := by decide +kernel
  cases htokens : tokenize .commaDecimal quotedColons with
  | error e =>
    rw [htokens] at hread
    cases hread
  | ok ts =>
    rw [htokens] at hread
    have hlossless : Token.IsLossless quotedColons ts := of_decide_eq_true hread
    exact ⟨hl, hstart, ts, rfl, hlossless, ((isLossless_iff hl hstart htokens).mp hlossless).2⟩

/-- **Some formulas are not covered by their tokens**: the operand in front of a text is lost, and an equals
sign alone is written as the empty text. -/
theorem not_isLossless_lostOperand :
    (tokenize .invariant "=A1:\"x\"" = .ok [⟨"\"x\"", .operand, .text, ⟨4, 7⟩⟩] ∧
        ¬Token.IsLossless "=A1:\"x\"" [⟨"\"x\"", .operand, .text, ⟨4, 7⟩⟩]) ∧
      tokenize .invariant "=" = .ok [] ∧ ¬Token.IsLossless "=" [] :=
  ⟨⟨by decide +kernel, by decide⟩, by decide +kernel, by decide⟩

end Spreadsheet
