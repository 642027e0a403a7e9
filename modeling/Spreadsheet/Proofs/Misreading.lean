import Spreadsheet.Proofs.Retargeting

/-!
# Misreading: texts with a syntax error

References are edited token by token, and so in a text with a syntax error, too. A formula stays a formula. The
other way round, such a text has a syntax error afterwards if its operands stand apart (`OperandsApart`): then the
lexer finds the same words but for the answers (`tokenize_edited`), and whether tokens derive a tree does not depend
on what their operands are (`parse_of_edited`).

Operands that touch may be put together by an edit, as the cell and the quoted name in `=C4'b'!B2` when the answer
about the second one needs no quotes.
-/

namespace Spreadsheet

open Lexer

variable {l : Locale} {edit : Reference → Option String}

/-- In a text no operand is followed at once by another one or by an opening parenthesis. -/
def OperandsApart (l : Locale) (text : String) : Prop :=
  ∀ ts, tokenize l text = .ok ts → ts.IsChain Token.StandsApart

namespace Word

/-- An answer is an operand like the reference that it is about. -/
theorem role_edited {w : Word} (h : w.role ≠ .opening) : (w.edited edit).role ≠ .opening := by
  cases htext : w.answer? edit with
  | none => rwa [edited_of_none htext]
  | some text =>
    rw [edited_of_some htext]
    dsimp only
    split <;> decide

/-- Words that stand apart do so after an edit, wherever it moves them. -/
theorem isChain_edited {ws : List Word} {offset : Nat} (h : (tokens offset ws).IsChain Token.StandsApart)
    (offset' : Nat) : (tokens offset' (ws.map (edited edit))).IsChain Token.StandsApart := by
  induction ws generalizing offset offset' with
  | nil => exact List.isChain_nil
  | cons w ws ih =>
    cases ws with
    | nil => exact List.isChain_singleton _
    | cons u us =>
      rw [tokens, tokens, List.isChain_cons_cons] at h
      rw [List.map_cons, List.map_cons, tokens, tokens, List.isChain_cons_cons]
      refine ⟨fun hkind => ?_, ih h.2 _⟩
      have hapart := h.1 ((kind_edited w).symm.trans hkind)
      exact ⟨fun hu => hapart.1 ((kind_edited u).symm.trans hu), role_edited hapart.2⟩

end Word

/-! ### What an edited text was before -/

namespace Expr

/-- All trees are alike. -/
theorem isCongruence_true : IsCongruence fun _ _ => True :=
  ⟨trivial, fun _ => trivial, fun _ _ => trivial, fun _ => trivial⟩

/-- Whatever is read from an answer, the reference that it is about can be read. -/
theorem corresponds_unedited (w : Word) (offset offset' : Nat) :
    ((w.edited edit).token offset').Corresponds l (fun _ _ => True) (w.token offset) := by
  refine ⟨w.kind_edited.symm, fun hkind => ?_, fun hkind x hx => ?_⟩
  · rw [Word.edited_of_none (Word.answer?_of_kind fun h => hkind (w.kind_edited.trans h))]
    exact ⟨rfl, rfl⟩
  · cases htext : w.answer? edit with
    | none =>
      rw [Word.edited_of_none htext] at hx
      have hread : ∃ y, ofOperand l (w.token offset) = .ok y ∧ _ :=
        ofOperand_unanswered (t := w.token offset') htext (w.kind_edited.symm.trans hkind) hx
      obtain ⟨y, hy, -⟩ := hread
      exact ⟨y, hy, trivial⟩
    | some text =>
      obtain ⟨r, -, hrole, hparse, -⟩ := Word.reference_of_answer? htext
      exact ⟨_, ofOperand_reference (t := w.token offset) hrole hparse, trivial⟩

end Expr

section Edited

variable (hl : l.HasPlainSeparator) (hedit : AnswersReferences edit) {text new : String}
  (hapart : OperandsApart l text) (h : editReferences l text edit = .ok (some new))
include hl hedit hapart h

/-- **The words of a text are found again after an edit**, with the answers in place of references. -/
theorem tokenize_edited : ∃ ws, text = String.ofList ('=' :: Word.sources ws) ∧ Splits l {} ws [] ∧
    (Context.after {} ws).openers = [] ∧ (Word.tokens 1 ws).IsChain Token.StandsApart ∧
    new = String.ofList ('=' :: Word.sources (ws.map (Word.edited edit))) ∧
    tokenize l new = .ok (Word.tokens 1 (ws.map (Word.edited edit))) := by
  obtain ⟨cs, ts, rfl, htokens⟩ := exists_of_editReferences h
  have hchain := hapart ts htokens
  obtain ⟨ws, hsources, hsplits, hopeners, rfl⟩ := (tokenize_eq_ok_iff hl).mp htokens
  rw [editReferences_of_words htokens hsources] at h
  split at h
  · cases h
  · cases h
    refine ⟨ws, by rw [hsources], hsplits, hopeners, hchain, rfl, (tokenize_eq_ok_iff hl).mpr ⟨_, rfl, ?_, ?_, rfl⟩⟩
    · exact splits_edited hl hedit hsplits (isChain_words hsplits 1 hchain)
    · rw [after_edited]
      exact hopeners

/-- Operands that stood apart stand apart after an edit. -/
theorem operandsApart_edited : OperandsApart l new := by
  obtain ⟨ws, -, -, -, hchain, -, htokens⟩ := tokenize_edited hl hedit hapart h
  intro ts hts
  rw [htokens] at hts
  cases hts
  exact Word.isChain_edited hchain 1

/-- **A text whose edit is a formula is a formula**, if its operands stand apart. -/
theorem Expr.parse_of_edited {y : Expr} (hy : Expr.parse l new = .ok y) : ∃ x, Expr.parse l text = .ok x := by
  obtain ⟨ws, rfl, hsplits, hopeners, -, rfl, htokens⟩ := tokenize_edited hl hedit hapart h
  obtain ⟨ws', hsources, hsplits', hopeners', hderives⟩ := (Expr.parse_eq_ok_iff hl).mp hy
  -- The words of the formula are the edited ones.
  rw [(tokenize_eq_ok_iff hl).mpr ⟨ws', hsources, hsplits', hopeners', rfl⟩] at htokens
  rw [Except.ok.inj htokens] at hderives
  have hback : List.Forall₂ (Token.Corresponds l fun _ _ => True)
      ((Word.tokens 1 (ws.map (Word.edited edit))).filter fun t => t.kind != .blank)
      ((Word.tokens 1 ws).filter fun t => t.kind != .blank) :=
    (Expr.forall₂_tokens (fun w offset offset' => Expr.corresponds_unedited w offset offset') ws 1 1).flip
  obtain ⟨x, hx, -⟩ := Expr.derives_corresponding Expr.isCongruence_true hderives hback
  exact ⟨x, (Expr.parse_eq_ok_iff hl).mpr ⟨ws, rfl, hsplits, hopeners, hx⟩⟩

end Edited

/-! ### Formulas with a syntax error -/

/-- A formula has a syntax error, and its operands stand apart. -/
structure Formula.IsMisread (l : Locale) (f : Formula) : Prop where
  problem : ∃ problem, f.parsed = some (.error problem)
  apart : OperandsApart l f.text

/-- No tree is read from it. -/
theorem Formula.IsMisread.tree?_eq_none {f : Formula} (h : f.IsMisread l) {w : Workbook} {p : Position} {c : Cell}
    (hc : w.cell? p = some c) (hf : c.content = .formula f) : w.tree? p = none := by
  obtain ⟨problem, hproblem⟩ := h.problem
  have hformula : c.formula? = some f := Cell.formula?_eq_some.mpr hf
  have htree : f.tree? = none := by
    unfold Formula.tree?
    rw [hproblem]
  unfold Workbook.tree? Cell.tree?
  rw [hc, Option.bind_some, hformula, Option.bind_some, htree]

/-- **A formula with a syntax error has one after an edit of its references**, if its operands stand apart. -/
theorem Engine.isMisread_of_editedTo {e : Engine} (hlocale : e.settings.locale.IsUnambiguous) {f f' : Formula}
    (hf : f.IsMisread e.settings.locale) (hread : ∀ r, f.parsed = some r → e.readFormula f.text = r)
    {edit : Reference → Option String} (hedit : AnswersReferences edit)
    (h : f.EditedTo e.settings.locale e.readFormula edit f') : f'.IsMisread e.settings.locale := by
  obtain ⟨problem, hproblem⟩ := hf.problem
  rcases h with ⟨htext, hparsed, -⟩ | ⟨hedited, hparsed⟩
  · exact ⟨⟨problem, hparsed.trans hproblem⟩, htext ▸ hf.apart⟩
  · obtain ⟨_, _, -, htokens⟩ := exists_of_editReferences hedited
    have hl := hlocale.hasPlainSeparator htokens
    refine ⟨?_, operandsApart_edited hl hedit hf.apart hedited⟩
    cases hy : e.readFormula f'.text with
    | error problem' => exact ⟨problem', hparsed.trans (congrArg some hy)⟩
    | ok y =>
      obtain ⟨x, hx⟩ := Expr.parse_of_edited hl hedit hf.apart hedited (readFormula_eq_ok.mp hy)
      have hok := (hread _ hproblem).symm.trans (readFormula_eq_ok.mpr hx)
      cases hok

end Spreadsheet
