import Mathlib.Data.List.Chain
import Mathlib.Data.List.Forall2
import Spreadsheet.Proofs.Mentions
import Spreadsheet.Proofs.Parsing
import Spreadsheet.Proofs.Spelling

/-!
# Substituting: an edit of a text is a substitution in its tree

References are edited in the text of a formula, token by token. What comes out is a formula again, and
its tree is the old one with every reference that was answered exchanged for the answer.

* `isChain_of_derives` — in a formula no operand stands next to another one.
* `splits_edited` — so an answer has room: it splits as one word, and the words around it stay.
* `derives_corresponding`, `derives_edited` — the tokens derive the tree in which the answers were put.
* `Expr.parse_editReferences` — hence the edited text is parsed to the tree after the substitution.

A word may carry characters that belong to no token. An edit keeps them, so the places of replacements
are counted from the characters of the words and not from those of the tokens.
-/

namespace Spreadsheet

open Lexer

variable {l : Locale} {edit : Reference → Option String}

/-! ### Substitution in a tree -/

namespace Expr

/-- What a reference becomes: the answer that an edit gives about it, if the reference goes by position
and there is an answer. -/
def answered (edit : Reference → Option String) (span : Option Span) (written : String) (r : Reference) : Expr :=
  match if r.isPositional then edit r else none with
  | none => .reference span written r
  | some text =>
    if text = lostReference then .literal span (.error Cause.deletedReference.toError)
    else
      match Reference.parse text with
      | .ok new => .reference span text new
      | .error _ => .reference span written r

mutual

/-- The tree with every reference exchanged for what it becomes. -/
def substitute (edit : Reference → Option String) : Expr → Expr
  | .literal span v => .literal span v
  | .reference span written r => answered edit span written r
  | .unary span op x => .unary span op (x.substitute edit)
  | .binary span op x y => .binary span op (x.substitute edit) (y.substitute edit)
  | .call span name xs => .call span name (substituteAll edit xs)

/-- Substitution in arguments. -/
def substituteAll (edit : Reference → Option String) : List Expr → List Expr
  | [] => []
  | x :: xs => x.substitute edit :: substituteAll edit xs

end

end Expr

/-- An edit that answers with the text of a cell or a range, or with the mark of a lost reference. What it
says about references that cannot be written does not matter. -/
def AnswersReferences (edit : Reference → Option String) : Prop :=
  ∀ r : Reference, r.isPositional = true → r.IsWritable → ∀ text, edit r = some text →
    text = lostReference ∨ ∃ new : Reference, new.isPositional = true ∧ new.IsWritable ∧ text = new.text

/-! ### Operands stand apart -/

/-- What may stand behind a token: an operand is followed by something that is none. -/
def Token.MayPrecede (t u : Token) : Prop :=
  t.kind = .operand → u.kind = .infixSign ∨ u.kind = .postfixSign ∨ u.kind = .separator ∨ u.role = .closing

namespace Expr

theorem isChain_cons {t : Token} {ts : List Token} (ht : t.kind ≠ .operand)
    (h : ts.IsChain Token.MayPrecede) : (t :: ts).IsChain Token.MayPrecede :=
  h.cons fun _ _ hkind => absurd hkind ht

theorem isChain_append {t : Token} {ts us : List Token} (h : ts.IsChain Token.MayPrecede)
    (ht : t.kind = .infixSign ∨ t.kind = .postfixSign ∨ t.kind = .separator ∨ t.role = .closing)
    (h' : (t :: us).IsChain Token.MayPrecede) : (ts ++ t :: us).IsChain Token.MayPrecede := by
  refine List.isChain_append.mpr ⟨h, h', ?_⟩
  rintro s - u ⟨⟩ -
  exact ht

theorem isChain_enclosed {o c : Token} {ts : List Token} (ho : o.kind ≠ .operand) (hc : c.role = .closing)
    (h : ts.IsChain Token.MayPrecede) : (o :: ts ++ [c]).IsChain Token.MayPrecede :=
  isChain_cons ho (isChain_append h (Or.inr (Or.inr (Or.inr hc))) (List.isChain_singleton c))

/-- **In a formula no operand stands next to another one.** -/
theorem isChain_of_derives {p : Part} {ts : List Token} {x : p.Tree} (h : Derives l p ts x) :
    ts.IsChain Token.MayPrecede := by
  induction h with
  | operand => exact List.isChain_singleton _
  | group ho _ hc ih => exact isChain_enclosed (by rw [ho.1]; decide) hc.2 ih
  | constant ho hc => exact isChain_enclosed (by rw [ho.1]; decide) hc.2 List.isChain_nil
  | call ho _ _ hc ih => exact isChain_enclosed (by rw [ho.1]; decide) hc.2 ih
  | plain _ ih => exact ih
  | percent _ ht ih => exact isChain_append ih (Or.inr (Or.inl ht)) (List.isChain_singleton _)
  | unsigned _ ih => exact ih
  | sign ht _ ih => exact isChain_cons (by rw [ht]; decide) ih
  | single _ ih => exact ih
  | join hinfixed _ _ _ ih ih' =>
    exact isChain_append ih (Or.inl hinfixed.1) (isChain_cons (by rw [hinfixed.1]; decide) ih')
  | leftOut => exact List.isChain_nil
  | given _ ih => exact ih
  | last _ ih => exact ih
  | more _ ht _ ih ih' =>
    exact isChain_append ih (Or.inr (Or.inr (Or.inl ht.1))) (isChain_cons (by rw [ht.1]; decide) ih')

end Expr

/-- Behind an operand there is neither another operand nor an opening parenthesis. -/
def Token.StandsApart (t u : Token) : Prop := t.kind = .operand → u.kind ≠ .operand ∧ u.role ≠ .opening

namespace Lexer

/-- What may stand behind a word: an operand is followed by a word that is none and ends it. -/
def MayPrecede (l : Locale) (w u : Word) : Prop :=
  w.kind = .operand → u.kind ≠ .operand ∧ ∃ c cs, u.source = c :: cs ∧ endsOperand l.separator c = true

/-- A word by which an operand may be followed in a formula, blanks among them. -/
theorem apart_of_follows {x : Context} {w : Word} {rest : List Char} (h : Fits l x w rest) (hx : x.IsProper)
    (hw : w.kind = .blank ∨ w.kind = .infixSign ∨ w.kind = .postfixSign ∨ w.kind = .separator ∨ w.role = .closing) :
    w.kind ≠ .operand ∧ w.role ≠ .opening := by
  cases h with
  | @operand cs _ _ _ _ =>
    have hrole := (operandRole_ne l cs).2
    simp [hrole] at hw
  | text | error | group | call => simp at hw
  | blank | pair | separator => exact ⟨fun h => TokenKind.noConfusion h, fun h => TokenRole.noConfusion h⟩
  | @sign c _ _ _ =>
    refine ⟨?_, fun h => TokenRole.noConfusion h⟩
    show x.signKind c ≠ .operand
    simp only [Context.signKind]
    repeat' split
    all_goals exact fun h => TokenKind.noConfusion h
  | @close kind outer _ hopeners =>
    refine ⟨?_, fun h => TokenRole.noConfusion h⟩
    rcases hx kind (by rw [hopeners]; exact List.mem_cons_self) with rfl | rfl <;> decide

/-- A word that stands apart from an operand ends it. -/
theorem ends_of_apart {x : Context} {w : Word} {rest : List Char} (h : Fits l x w rest)
    (hw : w.kind ≠ .operand ∧ w.role ≠ .opening) :
    ∃ c cs, w.source = c :: cs ∧ endsOperand l.separator c = true := by
  cases h with
  | operand | text | error => exact absurd rfl hw.1
  | group | call => exact absurd rfl hw.2
  | @blank c cs _ hc _ => exact ⟨c, cs, rfl, by simp [endsOperand, hc]⟩
  | @pair c d _ hpair =>
    have hsign : isSign c = true := by
      rcases hpair with h | h | h <;> rw [h.1] <;> decide
    exact ⟨c, [d], rfl, by simp [endsOperand, hsign]⟩
  | @sign c _ hc _ => exact ⟨c, [], rfl, by simp [endsOperand, hc]⟩
  | close => exact ⟨')', [], rfl, by simp [endsOperand]⟩
  | separator => exact ⟨l.separator, [], rfl, by simp [endsOperand]⟩

/-- The operands of a formula stand apart, blanks or not. -/
theorem isChain_tokens {x : Context} (hx : x.IsProper) {ws : List Word} (h : Splits l x ws []) (offset : Nat)
    (hchain : ((Word.tokens offset ws).filter fun t => t.kind != .blank).IsChain Token.MayPrecede) :
    (Word.tokens offset ws).IsChain Token.StandsApart := by
  induction ws generalizing x offset with
  | nil => exact List.isChain_nil
  | cons w ws ih =>
    cases h with
    | cons hfits hsplits =>
      have hnext := hx.next hfits
      have htail : ((Word.tokens (offset + Text.byteLength w.source) ws).filter fun t =>
          t.kind != .blank).IsChain Token.MayPrecede := by
        rw [Word.tokens, List.filter_cons] at hchain
        split at hchain
        · exact hchain.tail
        · exact hchain
      refine (ih hnext hsplits _ htail).cons fun u hu hkind => ?_
      cases hsplits with
      | nil => cases hu
      | @cons _ u us _ hfits' _ =>
        cases hu
        refine apart_of_follows hfits' hnext ?_
        by_cases hblank : u.kind = .blank
        · exact Or.inl hblank
        · have hw : ((w.token offset).kind != .blank) = true := bne_iff_ne.mpr (by rw [hkind]; decide)
          have hu : ((u.token (offset + Text.byteLength w.source)).kind != .blank) = true :=
            bne_iff_ne.mpr hblank
          rw [Word.tokens, Word.tokens, List.filter_cons, if_pos hw, List.filter_cons, if_pos hu,
            List.isChain_cons_cons] at hchain
          exact Or.inr (hchain.1 hkind)

/-- Words stand apart if their tokens do. -/
theorem isChain_words {x : Context} {ws : List Word} (h : Splits l x ws []) (offset : Nat)
    (hchain : (Word.tokens offset ws).IsChain Token.StandsApart) : ws.IsChain (MayPrecede l) := by
  induction ws generalizing x offset with
  | nil => exact List.isChain_nil
  | cons w ws ih =>
    cases h with
    | cons hfits hsplits =>
      rw [Word.tokens] at hchain
      refine (ih hsplits _ hchain.tail).cons fun u hu hkind => ?_
      cases hsplits with
      | nil => cases hu
      | @cons _ u us _ hfits' _ =>
        cases hu
        rw [Word.tokens, List.isChain_cons_cons] at hchain
        have hapart : u.kind ≠ .operand ∧ u.role ≠ .opening := hchain.1 hkind
        exact ⟨hapart.1, ends_of_apart hfits' hapart⟩

end Lexer

/-! ### Edited words -/

/-- The text that an edit puts in place of a token. -/
def Token.answer? (edit : Reference → Option String) (t : Token) : Option String := t.positional?.bind edit

namespace Word

/-- The text that an edit puts in place of a word. -/
def answer? (edit : Reference → Option String) (w : Word) : Option String := (w.token 0).answer? edit

theorem answer?_token (w : Word) (offset : Nat) : (w.token offset).answer? edit = w.answer? edit := rfl

/-- The word that an edit makes of a word. -/
def edited (edit : Reference → Option String) (w : Word) : Word :=
  match w.answer? edit with
  | none => w
  | some text => ⟨w.skipped, text.toList, .operand, if text = lostReference then .error else .range⟩

theorem edited_of_none {w : Word} (h : w.answer? edit = none) : w.edited edit = w := by
  rw [edited, h]

theorem edited_of_some {w : Word} {text : String} (h : w.answer? edit = some text) :
    w.edited edit = ⟨w.skipped, text.toList, .operand, if text = lostReference then .error else .range⟩ := by
  rw [edited, h]

/-- A word that is answered is a reference by position. -/
theorem reference_of_answer? {w : Word} {text : String} (h : w.answer? edit = some text) :
    ∃ r, w.kind = .operand ∧ w.role = .range ∧ Reference.parse (String.ofList w.chars) = .ok r ∧
      r.isPositional = true ∧ edit r = some text := by
  obtain ⟨r, hr, hedit⟩ := Option.bind_eq_some_iff.mp h
  rw [Token.positional?] at hr
  split at hr
  · next hrange =>
    split at hr
    · next r' hparse =>
      split at hr
      · next hpositional =>
        cases hr
        exact ⟨r, hrange.1, hrange.2, hparse, hpositional, hedit⟩
      · cases hr
    · cases hr
  · cases hr

theorem answer?_of_kind {w : Word} (h : w.kind ≠ .operand) : w.answer? edit = none := by
  rw [← Option.not_isSome_iff_eq_none, Option.isSome_iff_exists]
  rintro ⟨text, htext⟩
  obtain ⟨r, hkind, -⟩ := reference_of_answer? htext
  exact h hkind

theorem kind_edited (w : Word) : (w.edited edit).kind = w.kind := by
  cases h : w.answer? edit with
  | none => rw [edited_of_none h]
  | some text =>
    obtain ⟨r, hkind, -⟩ := reference_of_answer? h
    rw [edited_of_some h, hkind]

end Word

theorem replacements_cons_of_none {t : Token} (h : t.answer? edit = none) (ts : List Token) :
    replacements edit (t :: ts) = replacements edit ts := by
  rw [replacements, List.filterMap_cons_none]
  · rfl
  · rw [Token.answer?] at h
    cases hr : t.positional? with
    | none => rfl
    | some r =>
      rw [hr] at h
      exact congrArg (Option.map _) h

theorem replacements_cons_of_some {t : Token} {text : String} (h : t.answer? edit = some text)
    (ts : List Token) : replacements edit (t :: ts) = ⟨t.span, text⟩ :: replacements edit ts := by
  rw [replacements, List.filterMap_cons_some]
  · rfl
  · rw [Token.answer?] at h
    cases hr : t.positional? with
    | none =>
      rw [hr] at h
      cases h
    | some r =>
      rw [hr] at h
      exact congrArg (Option.map _) h

/-- Replacing what an edit answers gives the characters of the edited words. -/
theorem splice_replacements (edit : Reference → Option String) (ws : List Word) (offset : Nat)
    (before : List Char) :
    splice offset (replacements edit (Word.tokens (offset + Text.byteLength before) ws))
      (before ++ Word.sources ws) = before ++ Word.sources (ws.map (Word.edited edit)) := by
  induction ws generalizing offset before with
  | nil => rfl
  | cons w ws ih =>
    rw [Word.tokens, List.map_cons, Word.sources_cons, Word.sources_cons]
    cases h : w.answer? edit with
    | none =>
      rw [replacements_cons_of_none ((w.answer?_token _).trans h), Word.edited_of_none h, Nat.add_assoc,
        ← Text.byteLength_append, ← List.append_assoc, ← List.append_assoc]
      exact ih offset (before ++ w.source)
    | some text =>
      rw [replacements_cons_of_some ((w.answer?_token _).trans h), Word.edited_of_some h, splice]
      have hstart : (w.token (offset + Text.byteLength before)).span.start - offset =
          Text.byteLength (before ++ w.skipped) := by
        rw [Text.byteLength_append]
        show offset + Text.byteLength before + Text.byteLength w.skipped - offset = _
        omega
      have hstop : (w.token (offset + Text.byteLength before)).span.stop - offset =
          Text.byteLength (before ++ w.source) := by
        rw [Text.byteLength_append, Word.source, Text.byteLength_append]
        show offset + Text.byteLength before + Text.byteLength w.skipped + Text.byteLength w.chars - offset = _
        omega
      have hnext : offset + Text.byteLength before + Text.byteLength w.source =
          (w.token (offset + Text.byteLength before)).span.stop + Text.byteLength [] := by
        rw [Word.source, Text.byteLength_append, ← Nat.add_assoc]
        rfl
      have htake : before ++ (w.source ++ Word.sources ws) =
          (before ++ w.skipped) ++ (w.chars ++ Word.sources ws) := by
        simp only [Word.source, List.append_assoc]
      have hrest := ih (w.token (offset + Text.byteLength before)).span.stop []
      rw [← hnext, List.nil_append, List.nil_append] at hrest
      rw [hstart, hstop, ← List.append_assoc before w.source, Text.dropBytes_byteLength, hrest,
        List.append_assoc before w.source, htake, Text.takeBytes_byteLength]
      simp only [Word.source, List.append_assoc]

/-! ### Edited words split -/

namespace Lexer

theorem skipped_of_range {x : Context} {w : Word} {rest : List Char} (h : Fits l x w rest)
    (hrole : w.role = .range) : w.skipped = [] := by
  cases h with
  | text => cases hrole
  | _ => rfl

theorem next_edited (x : Context) (w : Word) : x.next (w.edited edit) = x.next w := by
  cases h : w.answer? edit with
  | none => rw [Word.edited_of_none h]
  | some text =>
    obtain ⟨r, hkind, hrole, -⟩ := Word.reference_of_answer? h
    have hnone : w.role ≠ .opening ∧ w.role ≠ .closing := by
      rw [hrole]
      decide
    rw [Word.edited_of_some h, x.next_operand hkind hnone]
    refine x.next_operand rfl ?_
    dsimp only
    split <;> decide

theorem after_edited (x : Context) (ws : List Word) : x.after (ws.map (Word.edited edit)) = x.after ws := by
  induction ws generalizing x with
  | nil => rfl
  | cons w ws ih =>
    show (x.next (w.edited edit)).after (ws.map (Word.edited edit)) = (x.next w).after ws
    rw [next_edited, ih]

theorem starts_text (hl : l.HasPlainSeparator) {r : Reference} (h : r.IsWritable) : Starts r.text.toList := by
  refine starts_of_gathers (Reference.gathers_text hl r) ?_
  obtain ⟨c, cs, hcs, -⟩ := Reference.opens_text h
  rw [hcs]
  exact List.cons_ne_nil c cs

theorem lostReference_eq : lostReference.toList = '#' :: "REF!".toList := rfl

/-- An answer is a word wherever something follows that ends an operand. -/
theorem fits_answer (hl : l.HasPlainSeparator) (hedit : AnswersReferences edit) {x : Context} {w : Word}
    {rest : List Char} (h : Fits l x w rest) {text : String} (htext : w.answer? edit = some text)
    {rest' : List Char} (hrest : Ends l rest') : Fits l x (w.edited edit) rest' ∧ Starts text.toList := by
  obtain ⟨r, -, hrole, hparse, hpositional, hanswer⟩ := Word.reference_of_answer? htext
  have hwritable := Reference.isWritable_of_parse hparse
  rw [Word.edited_of_some htext, skipped_of_range h hrole]
  by_cases hlost : text = lostReference
  · subst hlost
    rw [if_pos rfl, lostReference_eq]
    have herror : IsErrorCode ('#' :: "REF!".toList) := ⟨.invalidReference, rfl⟩
    exact ⟨.error .nil (Or.inl rfl) herror, '#', _, rfl, by decide⟩
  · obtain ⟨new, -, hnew, rfl⟩ := (hedit r hpositional hwritable text hanswer).resolve_left hlost
    rw [if_neg hlost]
    exact ⟨Reference.fits_text hl hnew x hrest, starts_text hl hnew⟩

/-- Behind an operand nothing changes. -/
theorem head?_sources_edited (edit : Reference → Option String) {ws : List Word} {w : Word} (h : (w :: ws).IsChain (MayPrecede l))
    (hkind : w.kind = .operand) :
    (Word.sources (ws.map (Word.edited edit))).head? = (Word.sources ws).head? ∧
      Ends l (Word.sources ws) := by
  cases ws with
  | nil => exact ⟨rfl, ends_nil⟩
  | cons u us =>
    obtain ⟨hother, c, cs, hcs, hends⟩ := (List.isChain_cons_cons.mp h).1 hkind
    rw [List.map_cons, Word.sources_cons, Word.sources_cons,
      Word.edited_of_none (Word.answer?_of_kind hother), hcs]
    exact ⟨rfl, ends_cons hends _⟩

/-- In front of an operand an answer starts like any operand. -/
theorem starts_sources_edited (hl : l.HasPlainSeparator) (hedit : AnswersReferences edit) {x : Context}
    {ws : List Word} (h : Splits l x ws []) :
    (Word.sources (ws.map (Word.edited edit))).head? = (Word.sources ws).head? ∨
      Starts (Word.sources (ws.map (Word.edited edit))) := by
  cases h with
  | nil => exact Or.inl rfl
  | @cons _ w ws _ hfits _ =>
    rw [List.map_cons, Word.sources_cons, Word.sources_cons]
    cases htext : w.answer? edit with
    | none =>
      rw [Word.edited_of_none htext]
      have hne : w.source ≠ [] := source_ne_nil hfits
      obtain ⟨c, cs, hcs⟩ := List.exists_cons_of_ne_nil hne
      rw [hcs]
      exact Or.inl rfl
    | some text =>
      obtain ⟨r, -, hrole, -⟩ := Word.reference_of_answer? htext
      have hstarts := (fits_answer hl hedit hfits htext ends_nil).2
      rw [Word.edited_of_some htext, Word.source, skipped_of_range hfits hrole, List.nil_append]
      exact Or.inr (hstarts.append _)

/-- **The words of a formula split after an edit.** -/
theorem splits_edited (hl : l.HasPlainSeparator) (hedit : AnswersReferences edit) {x : Context}
    {ws : List Word} (h : Splits l x ws []) (hchain : ws.IsChain (MayPrecede l)) :
    Splits l x (ws.map (Word.edited edit)) [] := by
  induction ws generalizing x with
  | nil => exact .nil
  | cons w ws ih =>
    cases h with
    | cons hfits hsplits =>
      have hrest : Splits l (x.next (w.edited edit)) (ws.map (Word.edited edit)) [] := by
        rw [next_edited]
        exact ih hsplits hchain.tail
      refine .cons ?_ hrest
      rw [List.append_nil] at hfits ⊢
      by_cases hkind : w.kind = .operand
      · obtain ⟨hhead, hends⟩ := head?_sources_edited edit hchain hkind
        cases htext : w.answer? edit with
        | none =>
          rw [Word.edited_of_none htext]
          exact hfits.exchange (Or.inl hhead)
        | some text =>
          refine (fits_answer hl hedit hfits htext ?_).1
          rw [Ends, hhead]
          exact hends
      · rw [Word.edited_of_none (Word.answer?_of_kind hkind)]
        exact hfits.exchange ((starts_sources_edited hl hedit hsplits).imp_right fun h => ⟨hkind, h⟩)

end Lexer

/-! ### Tokens that correspond derive -/

/-- A likeness of trees that is kept by everything trees are made of, wherever it stands. -/
structure Expr.IsCongruence (E : Expr → Expr → Prop) : Prop where
  omitted : E omitted omitted
  unary : ∀ {span span' op x y}, E x y → E (.unary span op x) (.unary span' op y)
  binary : ∀ {span span' op x y x' y'}, E x y → E x' y' → E (.binary span op x x') (.binary span' op y y')
  call : ∀ {span span' name xs ys}, List.Forall₂ E xs ys → E (.call span name xs) (.call span' name ys)

/-- A token corresponds to another one if it differs in its place only or, for an operand, if it is read as
something alike. -/
structure Token.Corresponds (l : Locale) (E : Expr → Expr → Prop) (t u : Token) : Prop where
  kind : u.kind = t.kind
  rest : t.kind ≠ .operand → u.text = t.text ∧ u.role = t.role
  operand : t.kind = .operand → ∀ x, Expr.ofOperand l t = .ok x → ∃ y, Expr.ofOperand l u = .ok y ∧ E x y

namespace Token.Corresponds

variable {E : Expr → Expr → Prop} {t u : Token}

theorem brackets (h : t.Corresponds l E u) {kind : TokenKind} {role : TokenRole} (hkind : kind ≠ .operand)
    (ht : t.Brackets kind role) : u.Brackets kind role := by
  have hother : t.kind ≠ .operand := by rw [ht.1]; exact hkind
  exact ⟨h.kind.trans ht.1, (h.rest hother).2.trans ht.2⟩

theorem isInfix (h : t.Corresponds l E u) {level : Nat} (ht : t.IsInfix level) : u.IsInfix level := by
  have hother : t.kind ≠ .operand := by rw [ht.1]; decide
  refine ⟨h.kind.trans ht.1, ?_⟩
  rw [Token.strength?, h.kind, (h.rest hother).1]
  exact ht.2

end Token.Corresponds

namespace Expr

theorem exists_of_forall₂_append {R : Token → Token → Prop} {as bs us : List Token}
    (h : List.Forall₂ R (as ++ bs) us) :
    ∃ us' vs, us = us' ++ vs ∧ List.Forall₂ R as us' ∧ List.Forall₂ R bs vs := by
  induction as generalizing us with
  | nil => exact ⟨[], us, rfl, .nil, h⟩
  | cons a as ih =>
    obtain ⟨u, us, hu, hrest, rfl⟩ := List.forall₂_cons_left_iff.mp h
    obtain ⟨us', vs, rfl, hus, hvs⟩ := ih hrest
    exact ⟨u :: us', vs, rfl, .cons hu hus, hvs⟩

/-- Tokens between two others, and what they correspond to. -/
theorem exists_of_forall₂_enclosed {R : Token → Token → Prop} {o c : Token} {ts us : List Token}
    (h : List.Forall₂ R (o :: ts ++ [c]) us) :
    ∃ o' us' c', us = o' :: us' ++ [c'] ∧ R o o' ∧ List.Forall₂ R ts us' ∧ R c c' := by
  obtain ⟨o', rest, ho, hrest, rfl⟩ := List.forall₂_cons_left_iff.mp h
  obtain ⟨us', vs, rfl, hus, hvs⟩ := exists_of_forall₂_append hrest
  obtain ⟨c', more, hc, hmore, rfl⟩ := List.forall₂_cons_left_iff.mp hvs
  rw [List.forall₂_nil_left_iff.mp hmore]
  exact ⟨o', us', c', rfl, ho, hus, hc⟩

/-- Tokens around another one, and what they correspond to. -/
theorem exists_of_forall₂_between {R : Token → Token → Prop} {t : Token} {ts ts' us : List Token}
    (h : List.Forall₂ R (ts ++ t :: ts') us) :
    ∃ vs t' vs', us = vs ++ t' :: vs' ∧ List.Forall₂ R ts vs ∧ R t t' ∧ List.Forall₂ R ts' vs' := by
  obtain ⟨vs, rest, rfl, hvs, hrest⟩ := exists_of_forall₂_append h
  obtain ⟨t', vs', ht, hvs', rfl⟩ := List.forall₂_cons_left_iff.mp hrest
  exact ⟨vs, t', vs', rfl, hvs, ht, hvs'⟩

/-- What two readings of a part have to do with each other. -/
def Part.Alike (E : Expr → Expr → Prop) : (p : Part) → p.Tree → p.Tree → Prop
  | .arguments, xs, ys => List.Forall₂ E xs ys
  | .primary, x, y | .postfixed, x, y | .signed, x, y | .joined _, x, y | .argument, x, y => E x y

/-- **Tokens that correspond one by one derive trees that are alike.** -/
theorem derives_corresponding {E : Expr → Expr → Prop} (hE : IsCongruence E) {p : Part} {ts : List Token} {x : p.Tree}
    (h : Derives l p ts x) {us : List Token} (hus : List.Forall₂ (Token.Corresponds l E) ts us) :
    ∃ y, Derives l p us y ∧ p.Alike E x y := by
  induction h generalizing us with
  | @operand t x hkind hleaf =>
    obtain ⟨u, rest, hu, hrest, rfl⟩ := List.forall₂_cons_left_iff.mp hus
    obtain ⟨y, hy, hsame⟩ := hu.operand hkind x hleaf
    rw [List.forall₂_nil_left_iff.mp hrest]
    exact ⟨y, .operand (hu.kind.trans hkind) hy, hsame⟩
  | group ho _ hc ih =>
    obtain ⟨o', us', c', rfl, ho', hus', hc'⟩ := exists_of_forall₂_enclosed hus
    obtain ⟨y, hy, hsame⟩ := ih hus'
    exact ⟨y, .group (ho'.brackets (by decide) ho) hy (hc'.brackets (by decide) hc), hsame⟩
  | @constant o c ho hc =>
    have hus : List.Forall₂ (Token.Corresponds l E) (o :: [] ++ [c]) us := hus
    obtain ⟨o', us', c', rfl, ho', hus', hc'⟩ := exists_of_forall₂_enclosed hus
    have hname : functionName o' = functionName o := by
      rw [functionName, (ho'.rest (by rw [ho.1]; decide)).1, functionName]
    rw [List.forall₂_nil_left_iff.mp hus']
    refine ⟨_, .constant (ho'.brackets (by decide) ho) (hc'.brackets (by decide) hc), ?_⟩
    rw [hname]
    exact hE.call .nil
  | @call o c ts xs ho hne _ hc ih =>
    obtain ⟨o', us', c', rfl, ho', hus', hc'⟩ := exists_of_forall₂_enclosed hus
    obtain ⟨ys, hys, hsame⟩ := ih hus'
    have hname : functionName o' = functionName o := by
      rw [functionName, (ho'.rest (by rw [ho.1]; decide)).1, functionName]
    have hne' : us' ≠ [] := by
      rintro rfl
      exact hne (List.forall₂_nil_right_iff.mp hus')
    refine ⟨_, .call (ho'.brackets (by decide) ho) hne' hys (hc'.brackets (by decide) hc), ?_⟩
    rw [hname]
    exact hE.call hsame
  | plain _ ih =>
    obtain ⟨y, hy, hsame⟩ := ih hus
    exact ⟨y, .plain hy, hsame⟩
  | @percent ts t x _ ht ih =>
    obtain ⟨vs, t', rest, rfl, hvs, ht', hrest⟩ := exists_of_forall₂_between hus
    obtain ⟨y, hy, hsame⟩ := ih hvs
    rw [List.forall₂_nil_left_iff.mp hrest]
    refine ⟨_, .percent hy (ht'.kind.trans ht), ?_⟩
    rw [(ht'.rest (by rw [ht]; decide)).1]
    exact hE.unary hsame
  | unsigned _ ih =>
    obtain ⟨y, hy, hsame⟩ := ih hus
    exact ⟨y, .unsigned hy, hsame⟩
  | @sign t ts x ht _ ih =>
    obtain ⟨t', vs, ht', hvs, rfl⟩ := List.forall₂_cons_left_iff.mp hus
    obtain ⟨y, hy, hsame⟩ := ih hvs
    refine ⟨_, .sign (ht'.kind.trans ht) hy, ?_⟩
    rw [(ht'.rest (by rw [ht]; decide)).1]
    exact hE.unary hsame
  | single _ ih =>
    obtain ⟨y, hy, hsame⟩ := ih hus
    exact ⟨y, .single hy, hsame⟩
  | @join least level t ts us' x z hinfixed hle _ _ ih ih' =>
    obtain ⟨vs, t', vs', rfl, hvs, ht', hvs'⟩ := exists_of_forall₂_between hus
    obtain ⟨y, hy, hsame⟩ := ih hvs
    obtain ⟨y', hy', hsame'⟩ := ih' hvs'
    refine ⟨_, .join (ht'.isInfix hinfixed) hle hy hy', ?_⟩
    rw [(ht'.rest (by rw [hinfixed.1]; decide)).1]
    exact hE.binary hsame hsame'
  | leftOut =>
    rw [List.forall₂_nil_left_iff.mp hus]
    exact ⟨omitted, .leftOut, hE.omitted⟩
  | given _ ih =>
    obtain ⟨y, hy, hsame⟩ := ih hus
    exact ⟨y, .given hy, hsame⟩
  | @last ts x _ ih =>
    obtain ⟨y, hy, hsame⟩ := ih hus
    exact ⟨[y], .last hy, .cons hsame .nil⟩
  | @more t ts us' x xs _ ht _ ih ih' =>
    obtain ⟨vs, t', vs', rfl, hvs, ht', hvs'⟩ := exists_of_forall₂_between hus
    obtain ⟨y, hy, hsame⟩ := ih hvs
    obtain ⟨ys, hys, hsame'⟩ := ih' hvs'
    exact ⟨_, .more hy (ht'.brackets (by decide) ht) hys, .cons hsame hsame'⟩

/-! ### Edited tokens derive -/

/-- A tree is read as the one in which the answers were put, spans and spellings aside. -/
def Substituted (edit : Reference → Option String) (x y : Expr) : Prop := y.bare = (x.substitute edit).bare

theorem bareAll_of_substituted {xs ys : List Expr} (h : List.Forall₂ (Substituted edit) xs ys) :
    bareAll ys = bareAll (substituteAll edit xs) := by
  induction h with
  | nil => rfl
  | @cons x y xs ys hx _ ih =>
    show y.bare :: bareAll ys = (x.substitute edit).bare :: bareAll (substituteAll edit xs)
    rw [hx, ih]

theorem isCongruence_substituted (edit : Reference → Option String) : IsCongruence (Substituted edit) where
  omitted := rfl
  unary := by
    intro _ _ op x y h
    show Expr.unary none op y.bare = Expr.unary none op (x.substitute edit).bare
    rw [h]
  binary := by
    intro _ _ op x y x' y' h h'
    show Expr.binary none op y.bare y'.bare =
      Expr.binary none op (x.substitute edit).bare (x'.substitute edit).bare
    rw [h, h']
  call := by
    intro _ _ name xs ys h
    show Expr.call none name (bareAll ys) = Expr.call none name (bareAll (substituteAll edit xs))
    rw [bareAll_of_substituted h]

theorem bare_answered_of_none {r : Reference} (h : r.isPositional = true → edit r = none)
    (span : Option Span) (written : String) :
    (answered edit span written r).bare = (Expr.reference span written r).bare := by
  have hnone : (if r.isPositional then edit r else none) = none := by
    split
    · next hpositional => exact h hpositional
    · rfl
  rw [answered, hnone]

/-- A leaf that comes from a token becomes the leaf of the edited token. -/
theorem ofOperand_unanswered {t : Token} {span : Span} (h : t.answer? edit = none) (hkind : t.kind = .operand)
    {x : Expr} (hx : ofOperand l t = .ok x) :
    ∃ y, ofOperand l { t with span := span } = .ok y ∧ y.bare = (x.substitute edit).bare := by
  rw [ofOperand] at hx ⊢
  dsimp only
  split at hx
  · split at hx
    · next v hv =>
      cases hx
      exact ⟨.literal (some span) (.number v), rfl, rfl⟩
    · cases hx
  · cases hx
    exact ⟨_, rfl, rfl⟩
  · cases hx
    exact ⟨_, rfl, rfl⟩
  · split at hx
    · next e he =>
      cases hx
      exact ⟨.literal (some span) (.error e), rfl, rfl⟩
    · cases hx
  · next hrole =>
    split at hx
    · next r hr =>
      cases hx
      refine ⟨.reference (some span) t.text r, rfl, ?_⟩
      have hnone : r.isPositional = true → edit r = none := by
        intro hpositional
        have hreference : t.positional? = some r := by
          rw [Token.positional?, if_pos ⟨hkind, hrole⟩, hr]
          exact if_pos hpositional
        rw [Token.answer?, hreference] at h
        exact h
      exact (bare_answered_of_none hnone (some t.span) t.text).symm
    · cases hx
  · cases hx

theorem ofOperand_reference {t : Token} {r : Reference} (hrole : t.role = .range)
    (hparse : Reference.parse t.text = .ok r) :
    ofOperand l t = .ok (.reference (some t.span) t.text r) := by
  rw [ofOperand, hrole]
  dsimp only
  rw [hparse]

theorem ofOperand_lostReference (l : Locale) (span : Span) :
    ofOperand l ⟨lostReference, .operand, .error, span⟩ =
      .ok (.literal (some span) (.error Cause.deletedReference.toError)) := by
  have hread : errorLiteral? lostReference = some Cause.deletedReference.toError := by decide +kernel
  rw [ofOperand]
  dsimp only
  rw [hread]

theorem corresponds_edited (hedit : AnswersReferences edit) (w : Word) (offset offset' : Nat) :
    (w.token offset).Corresponds l (Substituted edit) ((w.edited edit).token offset') := by
  refine ⟨w.kind_edited, fun hkind => ?_, fun hkind x hx => ?_⟩
  · rw [Word.edited_of_none (Word.answer?_of_kind hkind)]
    exact ⟨rfl, rfl⟩
  · cases htext : w.answer? edit with
    | none =>
      rw [Word.edited_of_none htext]
      exact ofOperand_unanswered (t := w.token offset) htext hkind hx
    | some text =>
      obtain ⟨r, -, hrole, hparse, hpositional, hanswer⟩ := Word.reference_of_answer? htext
      rw [ofOperand_reference (t := w.token offset) hrole hparse] at hx
      cases hx
      have hanswered : (if r.isPositional then edit r else none) = some text := by
        rw [if_pos hpositional, hanswer]
      unfold Substituted
      rw [Word.edited_of_some htext, substitute, answered, hanswered]
      dsimp only
      by_cases hlost : text = lostReference
      · rw [if_pos hlost, if_pos hlost, hlost, Word.token, String.ofList_toList]
        exact ⟨_, ofOperand_lostReference l _, rfl⟩
      · have hwritable := Reference.isWritable_of_parse hparse
        obtain ⟨new, -, hnew, rfl⟩ := (hedit r hpositional hwritable text hanswer).resolve_left hlost
        have hread := Reference.parse_text hnew
        rw [if_neg hlost, if_neg hlost, hread, Word.token, String.ofList_toList]
        exact ⟨_, ofOperand_reference (t := ⟨new.text, .operand, .range, _⟩) rfl hread, rfl⟩

/-- The tokens of a formula and of the edited one, pair by pair. -/
theorem forall₂_tokens {R : Token → Token → Prop}
    (hR : ∀ (w : Word) offset offset', R (w.token offset) ((w.edited edit).token offset')) (ws : List Word)
    (offset offset' : Nat) :
    List.Forall₂ R ((Word.tokens offset ws).filter fun t => t.kind != .blank)
      ((Word.tokens offset' (ws.map (Word.edited edit))).filter fun t => t.kind != .blank) := by
  induction ws generalizing offset offset' with
  | nil => exact .nil
  | cons w ws ih =>
    have hkind : ((w.edited edit).token offset').kind = (w.token offset).kind := w.kind_edited
    rw [List.map_cons, Word.tokens, Word.tokens, List.filter_cons, List.filter_cons, hkind]
    split
    · exact .cons (hR w offset offset') (ih _ _)
    · exact ih _ _

/-- **Edited tokens derive the tree in which the answers were put.** -/
theorem derives_edited (hedit : AnswersReferences edit) {level : Nat} {ws : List Word} {x : Expr}
    (h : Derives l (.joined level) ((Word.tokens 1 ws).filter fun t => t.kind != .blank) x) :
    ∃ y, Derives l (.joined level) ((Word.tokens 1 (ws.map (Word.edited edit))).filter fun t => t.kind != .blank) y ∧
      y.bare = (x.substitute edit).bare :=
  derives_corresponding (isCongruence_substituted edit) h (forall₂_tokens (corresponds_edited hedit) ws 1 1)

/-! ### Every token that writes a reference is mentioned -/

/-- The references of a part. -/
def Part.references : (p : Part) → p.Tree → List (String × Reference)
  | .arguments, xs => referencesAll xs
  | .primary, x | .postfixed, x | .signed, x | .joined _, x | .argument, x => x.references

theorem mem_references_of_derives {p : Part} {ts : List Token} {x : p.Tree} (h : Derives l p ts x) {t : Token}
    (ht : t ∈ ts) {r : Reference} (hwrites : t.Writes r) : ∃ written, (written, r) ∈ p.references x := by
  have hother : ∀ {u : Token}, u.kind ≠ .operand → t ≠ u := by
    rintro u hu rfl
    exact hu hwrites.1
  induction h with
  | @operand u x _ hleaf =>
    rw [← List.mem_singleton.mp ht, ofOperand_reference hwrites.2.1 hwrites.2.2] at hleaf
    cases hleaf
    exact ⟨t.text, List.mem_cons_self⟩
  | group ho _ hc ih =>
    have hmem := List.mem_append.mp (List.mem_of_ne_of_mem (hother (by rw [ho.1]; decide)) ht)
    exact ih (hmem.resolve_right fun hlast => hother (by rw [hc.1]; decide) (List.mem_singleton.mp hlast))
  | constant ho hc =>
    have hmem := List.mem_of_ne_of_mem (hother (by rw [ho.1]; decide)) ht
    exact absurd (List.mem_singleton.mp hmem) (hother (by rw [hc.1]; decide))
  | call ho _ _ hc ih =>
    have hmem := List.mem_append.mp (List.mem_of_ne_of_mem (hother (by rw [ho.1]; decide)) ht)
    exact ih (hmem.resolve_right fun hlast => hother (by rw [hc.1]; decide) (List.mem_singleton.mp hlast))
  | plain _ ih => exact ih ht
  | percent _ hu ih =>
    refine ih ((List.mem_append.mp ht).resolve_right fun hlast => ?_)
    exact hother (by rw [hu]; decide) (List.mem_singleton.mp hlast)
  | unsigned _ ih => exact ih ht
  | sign hu _ ih => exact ih (List.mem_of_ne_of_mem (hother (by rw [hu]; decide)) ht)
  | single _ ih => exact ih ht
  | join hinfixed _ _ _ ih ih' =>
    rcases List.mem_append.mp ht with ht | ht
    · obtain ⟨written, hmem⟩ := ih ht
      exact ⟨written, List.mem_append_left _ hmem⟩
    · obtain ⟨written, hmem⟩ := ih' (List.mem_of_ne_of_mem (hother (by rw [hinfixed.1]; decide)) ht)
      exact ⟨written, List.mem_append_right _ hmem⟩
  | leftOut => cases ht
  | given _ ih => exact ih ht
  | last _ ih =>
    obtain ⟨written, hmem⟩ := ih ht
    exact ⟨written, List.mem_append_left _ hmem⟩
  | more _ hu _ ih ih' =>
    rcases List.mem_append.mp ht with ht | ht
    · obtain ⟨written, hmem⟩ := ih ht
      exact ⟨written, List.mem_append_left _ hmem⟩
    · obtain ⟨written, hmem⟩ := ih' (List.mem_of_ne_of_mem (hother (by rw [hu.1]; decide)) ht)
      exact ⟨written, List.mem_append_right _ hmem⟩

end Expr

/-! ### Edited formulas -/

theorem Token.writes_of_positional? {t : Token} {r : Reference} (h : t.positional? = some r) :
    t.Writes r ∧ r.isPositional = true := by
  unfold Token.positional? at h
  split at h
  · next hrange =>
    split at h
    · next r' hparse =>
      split at h
      · next hpositional =>
        cases h
        exact ⟨⟨hrange.1, hrange.2, hparse⟩, hpositional⟩
      · cases h
    · cases h
  · cases h

theorem exists_answer_of_replacements {ts : List Token} (h : replacements edit ts ≠ []) :
    ∃ t ∈ ts, ∃ text, t.answer? edit = some text := by
  induction ts with
  | nil => exact absurd rfl h
  | cons t ts ih =>
    cases ht : t.answer? edit with
    | none =>
      rw [replacements_cons_of_none ht] at h
      obtain ⟨u, hu, hanswer⟩ := ih h
      exact ⟨u, List.mem_cons_of_mem t hu, hanswer⟩
    | some text => exact ⟨t, List.mem_cons_self, text, ht⟩

/-- An edit that replaces something in a formula answers a reference of its tree. -/
theorem exists_reference_of_replacements {ws : List Word} {x : Expr}
    (h : Expr.Derives l (.joined 0) ((Word.tokens 1 ws).filter fun t => t.kind != .blank) x)
    (hne : replacements edit (Word.tokens 1 ws) ≠ []) :
    ∃ entry ∈ x.references, entry.2.isPositional = true ∧ edit entry.2 ≠ none := by
  obtain ⟨t, ht, text, hanswer⟩ := exists_answer_of_replacements hne
  obtain ⟨r, hreference, hedit⟩ := Option.bind_eq_some_iff.mp hanswer
  obtain ⟨hwrites, hpositional⟩ := Token.writes_of_positional? hreference
  have hmem : t ∈ (Word.tokens 1 ws).filter fun t => t.kind != .blank := by
    refine List.mem_filter.mpr ⟨ht, bne_iff_ne.mpr ?_⟩
    rw [hwrites.1]
    decide
  obtain ⟨written, hentry⟩ := Expr.mem_references_of_derives h hmem hwrites
  exact ⟨(written, r), hentry, hpositional, by rw [hedit]; exact Option.some_ne_none text⟩

/-- The text after an edit is that of the edited words. -/
theorem editReferences_of_words {cs : List Char} {ws : List Word}
    (htokens : tokenize l (String.ofList ('=' :: cs)) = .ok (Word.tokens 1 ws)) (hsources : Word.sources ws = cs)
    (edit : Reference → Option String) :
    editReferences l (String.ofList ('=' :: cs)) edit =
      if replacements edit (Word.tokens 1 ws) = [] then .ok none
      else .ok (some (String.ofList ('=' :: Word.sources (ws.map (Word.edited edit))))) := by
  have hsplice : splice 0 (replacements edit (Word.tokens 1 ws)) ('=' :: cs) =
      '=' :: Word.sources (ws.map (Word.edited edit)) := by
    rw [← hsources]
    exact splice_replacements edit ws 0 ['=']
  rw [editReferences, htokens, String.toList_ofList]
  dsimp only
  split
  · next hnone => rw [if_pos hnone]
  · next hnone => rw [if_neg hnone, hsplice]

/-- Only a formula is edited, and it has tokens. -/
theorem exists_of_editReferences {text new : String} (h : editReferences l text edit = .ok (some new)) :
    ∃ cs ts, text = String.ofList ('=' :: cs) ∧ tokenize l text = .ok ts := by
  unfold editReferences at h
  split at h
  · cases h
  next ts htokens =>
  split at h
  · cases h
  next hne =>
  refine ⟨text.toList.tail, ts, ?_, htokens⟩
  unfold tokenize at htokens
  split at htokens
  · cases htokens
  split at htokens
  · cases htokens
    exact absurd rfl hne
  next c cs hcs =>
  split at htokens
  · next heq => rw [hcs, List.tail_cons, ← heq, ← hcs, String.ofList_toList]
  · cases htokens
    exact absurd rfl hne

/-- **An edited formula is parsed to the tree in which the answers were put.** -/
theorem Expr.parse_of_editReferences (hl : l.HasPlainSeparator) {text new : String} {x : Expr}
    (hx : Expr.parse l text = .ok x) (hedit : AnswersReferences edit)
    (h : editReferences l text edit = .ok (some new)) :
    ∃ y, Expr.parse l new = .ok y ∧ y.bare = (x.substitute edit).bare := by
  obtain ⟨cs, -, rfl, -⟩ := exists_of_editReferences h
  obtain ⟨ws, hsources, hsplits, hopeners, hderives⟩ := (Expr.parse_eq_ok_iff hl).mp hx
  have htokens := (tokenize_eq_ok_iff hl).mpr ⟨ws, hsources, hsplits, hopeners, rfl⟩
  have hproper : Context.IsProper {} := fun kind hmem => absurd hmem List.not_mem_nil
  -- the edited words are a formula
  have hchain := isChain_words hsplits 1 (isChain_tokens hproper hsplits 1 (Expr.isChain_of_derives hderives))
  obtain ⟨y, hy, hsame⟩ := Expr.derives_edited hedit hderives
  rw [editReferences_of_words htokens hsources] at h
  split at h
  · cases h
  · cases h
    refine ⟨y, (Expr.parse_eq_ok_iff hl).mpr ⟨_, rfl, splits_edited hl hedit hsplits hchain, ?_, hy⟩, hsame⟩
    rw [after_edited]
    exact hopeners

/-- **An edit of a text is a substitution in its tree.** In either of the built-in locales, a formula that
is parsed stays one when an edit answers its references with texts of references or with the mark of a
lost one; its tree becomes the one in which the answers were put, spans and spellings aside. The formula
stays as it is just if no reference by position is answered. -/
theorem Expr.parse_editReferences (hl : l.IsBuiltIn) {text : String} (hformula : text.toList.head? = some '=')
    {x : Expr} (hx : Expr.parse l text = .ok x) (hedit : AnswersReferences edit) :
    ∃ result, editReferences l text edit = .ok result ∧
      (result = none ↔ ∀ entry ∈ x.references, entry.2.isPositional = true → edit entry.2 = none) ∧
      ∀ new ∈ result, ∃ y, Expr.parse l new = .ok y ∧ y.bare = (x.substitute edit).bare := by
  have hseparator := hl.hasPlainSeparator
  obtain ⟨cs, hcs⟩ := List.head?_eq_some_iff.mp hformula
  obtain rfl : text = String.ofList ('=' :: cs) := by rw [← hcs, String.ofList_toList]
  obtain ⟨ws, hsources, hsplits, hopeners, hderives⟩ := (Expr.parse_eq_ok_iff hseparator).mp hx
  have htokens := (tokenize_eq_ok_iff hseparator).mpr ⟨ws, hsources, hsplits, hopeners, rfl⟩
  -- a reference that is answered is replaced
  have hanswered : ∀ entry ∈ x.references, entry.2.isPositional = true → edit entry.2 ≠ none →
      ∃ new, editReferences l (String.ofList ('=' :: cs)) edit = .ok (some new) := by
    intro entry hentry hpositional hne
    obtain ⟨new, hnew⟩ := Option.ne_none_iff_exists'.mp hne
    exact editReferences_of_parse hx hentry hpositional hnew
  have hedited := editReferences_of_words htokens hsources edit
  by_cases hnone : replacements edit (Word.tokens 1 ws) = []
  · rw [if_pos hnone] at hedited
    refine ⟨none, hedited, ⟨fun _ entry hentry hpositional => ?_, fun _ => rfl⟩, fun new hnew => by cases hnew⟩
    by_contra hne
    obtain ⟨new, hnew⟩ := hanswered entry hentry hpositional hne
    rw [hedited] at hnew
    cases hnew
  · rw [if_neg hnone] at hedited
    refine ⟨_, hedited, ⟨fun hsome => (by cases hsome), fun hall => ?_⟩, ?_⟩
    · obtain ⟨entry, hentry, hpositional, hne⟩ := exists_reference_of_replacements hderives hnone
      exact absurd (hall entry hentry hpositional) hne
    · rintro new ⟨⟩
      exact Expr.parse_of_editReferences hseparator hx hedit hedited

/-- An edit that loses the cells of the sheet on which a formula stands and moves ranges to a cell of
another sheet. -/
def lostOrMoved : Reference → Option String
  | .cell none _ => some lostReference
  | .range _ _ _ => some (Reference.cell (some "O'Hara") (.plain 2 3)).text
  | _ => none

theorem answersReferences_lostOrMoved : AnswersReferences lostOrMoved := by
  intro r _ _ text htext
  match r with
  | .cell none _ =>
    cases htext
    exact Or.inl rfl
  | .range _ _ _ =>
    cases htext
    exact Or.inr ⟨.cell (some "O'Hara") (.plain 2 3), rfl, ⟨by decide, by decide⟩, rfl⟩
  | .cell (some _) _ => cases htext
  | .name _ => cases htext

/-- A percentage, a sheet name in quotes, a name and a cell of another sheet in one formula. -/
theorem Expr.parse_editReferences_mixed : AnswersReferences lostOrMoved ∧
    ∃ x, Expr.parse .commaDecimal "= -a1%+Sum( $B$2:c3;1,5 ; rate;S2!d4)" = .ok x ∧
      editReferences .commaDecimal "= -a1%+Sum( $B$2:c3;1,5 ; rate;S2!d4)" lostOrMoved =
        .ok (some "= -#REF!%+Sum( 'O''Hara'!B3;1,5 ; rate;S2!d4)") ∧
      ∃ y, Expr.parse .commaDecimal "= -#REF!%+Sum( 'O''Hara'!B3;1,5 ; rate;S2!d4)" = .ok y ∧
        y.bare = (x.substitute lostOrMoved).bare := by
  have hedited : editReferences .commaDecimal "= -a1%+Sum( $B$2:c3;1,5 ; rate;S2!d4)" lostOrMoved =
      .ok (some "= -#REF!%+Sum( 'O''Hara'!B3;1,5 ; rate;S2!d4)") := by decide +kernel
  have hok : (Expr.parse .commaDecimal "= -a1%+Sum( $B$2:c3;1,5 ; rate;S2!d4)").isOk = true := by decide +kernel
  cases hx : Expr.parse .commaDecimal "= -a1%+Sum( $B$2:c3;1,5 ; rate;S2!d4)" with
  | error e =>
    rw [hx] at hok
    cases hok
  | ok x =>
    obtain ⟨result, hresult, -, hnew⟩ :=
      Expr.parse_editReferences (Or.inr rfl) (by decide) hx answersReferences_lostOrMoved
    rw [hedited] at hresult
    cases hresult
    exact ⟨answersReferences_lostOrMoved, x, rfl, hedited, hnew _ rfl⟩

end Spreadsheet
