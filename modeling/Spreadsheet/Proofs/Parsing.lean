import Spreadsheet.Proofs.Grammar
import Spreadsheet.Proofs.Lexing

/-!
# Parsing: formulas by their words

A text with an equals sign in front is a formula if it splits into words whose tokens derive a tree.
The grammar of tokens asks for less than the lexer gives: `Token.IsLexed` says what the characters of a
token look like, and the operators among them are always operators of the language.

* `Expr.parse_eq_ok_iff` — a formula is parsed to the tree that its words derive.
-/

namespace Spreadsheet

open Lexer

/-- What the lexer promises about the characters of a token. -/
structure Token.IsLexed (l : Locale) (t : Token) : Prop where
  notLiteral : t.kind ≠ .literal
  number : t.kind = .operand → t.role = .number → ∃ c, t.text.toList.head? = some c ∧ c.isDigit = true
  prefixed : t.kind = .prefixSign → t.text = "+" ∨ t.text = "-"
  infixed : t.kind = .infixSign → ∃ op ∈ BinaryOperator.all, t.text = op.symbol
  postfixed : t.kind = .postfixSign → t.text = "%"
  called : t.Brackets .call .opening → ∃ name, t.text.toList = name ++ ['('] ∧ Gathers l name ∧ name ≠ []

namespace Lexer

variable {l : Locale}

/-- Only parentheses of groups and of calls are open. -/
def Context.IsProper (x : Context) : Prop := ∀ kind ∈ x.openers, kind = .group ∨ kind = .call

theorem Context.IsProper.next {x : Context} (hx : x.IsProper) {w : Word} {rest : List Char}
    (h : Fits l x w rest) : (x.next w).IsProper := by
  have hkind : w.role = .opening → w.kind = .group ∨ w.kind = .call := by
    intro hrole
    cases h with
    | operand => exact absurd hrole (operandRole_ne l _).1
    | group => exact Or.inl rfl
    | call => exact Or.inr rfl
    | _ => cases hrole
  intro kind hmem
  unfold Context.next at hmem
  dsimp only at hmem
  split at hmem
  · next hrole =>
    rcases List.mem_cons.mp hmem with rfl | hmem
    · exact hkind hrole
    · exact hx kind hmem
  · split at hmem
    · exact hx kind (List.mem_of_mem_tail hmem)
    · exact hx kind hmem

theorem isNumeral_of_operandRole {cs : List Char} (h : operandRole l cs = .number) :
    ∃ c, cs.head? = some c ∧ c.isDigit = true := by
  unfold operandRole at h
  split at h
  · cases h
  · next c cs =>
    refine ⟨c, rfl, ?_⟩
    rw [← Bool.not_eq_false]
    intro hdigit
    dsimp only at h
    rw [hdigit, Bool.false_and, if_neg Bool.false_ne_true] at h
    repeat' split at h
    all_goals cases h

/-- The signs of one character that are no percent sign are operators of the language. -/
theorem symbol_of_isSign {c : Char} (hc : isSign c = true) (hpercent : c ≠ '%') :
    ∃ op ∈ BinaryOperator.all, String.ofList [c] = op.symbol := by
  simp only [isSign, Bool.or_eq_true, beq_iff_eq] at hc
  rcases hc with ((((((((rfl | rfl) | rfl) | rfl) | rfl) | rfl) | rfl) | rfl) | rfl) | rfl
  · exact ⟨.plus, by decide, rfl⟩
  · exact ⟨.minus, by decide, rfl⟩
  · exact ⟨.times, by decide, rfl⟩
  · exact ⟨.divide, by decide, rfl⟩
  · exact ⟨.power, by decide, rfl⟩
  · exact ⟨.join, by decide, rfl⟩
  · exact ⟨.equal, by decide, rfl⟩
  · exact ⟨.greater, by decide, rfl⟩
  · exact ⟨.less, by decide, rfl⟩
  · exact absurd rfl hpercent

theorem symbol_of_isPair {c d : Char} (h : IsPair c d) :
    ∃ op ∈ BinaryOperator.all, String.ofList [c, d] = op.symbol := by
  rcases h with ⟨rfl, rfl⟩ | ⟨rfl, rfl⟩ | ⟨rfl, rfl⟩
  · exact ⟨.atLeast, by decide, rfl⟩
  · exact ⟨.atMost, by decide, rfl⟩
  · exact ⟨.different, by decide, rfl⟩

theorem isLexed_sign {c : Char} (hc : isSign c = true) (x : Context) (span : Span) :
    Token.IsLexed l ⟨String.ofList [c], x.signKind c, .plain, span⟩ := by
  unfold Context.signKind
  split
  · next hpercent =>
    subst hpercent
    constructor <;> simp
  · next hpercent =>
    split
    · next hleading =>
      rcases hleading.1 with rfl | rfl <;> constructor <;> simp
    · obtain ⟨op, hop, hsymbol⟩ := symbol_of_isSign hc hpercent
      constructor
      case infixed => exact fun _ => ⟨op, hop, hsymbol⟩
      all_goals simp

/-- The token of a word that fits. -/
theorem Fits.isLexed {x : Context} (hx : x.IsProper) {w : Word} {rest : List Char} (h : Fits l x w rest)
    (offset : Nat) : (w.token offset).IsLexed l := by
  cases h with
  | @operand cs _ =>
    constructor
    case number =>
      intro _ hrole
      obtain ⟨c, hc, hdigit⟩ := isNumeral_of_operandRole hrole
      exact ⟨c, by rw [Word.token, String.toList_ofList, hc], hdigit⟩
    all_goals simp [Word.token]
  | text | error | blank | group | separator => constructor <;> simp [Word.token]
  | @pair c d _ hpair =>
    obtain ⟨op, hop, hsymbol⟩ := symbol_of_isPair hpair
    constructor
    case infixed => exact fun _ => ⟨op, hop, hsymbol⟩
    all_goals simp [Word.token]
  | @sign c _ hc _ => exact isLexed_sign hc x _
  | @call name _ hname hne =>
    constructor
    case called => exact fun _ => ⟨name, by rw [Word.token, String.toList_ofList], hname, hne⟩
    all_goals simp [Word.token]
  | @close kind outer _ hopeners =>
    have hkind : kind = .group ∨ kind = .call := hx kind (by rw [hopeners]; exact List.mem_cons_self)
    rcases hkind with rfl | rfl <;> constructor <;> simp [Word.token]

/-- The tokens of words that split. -/
theorem Splits.isLexed {x : Context} (hx : x.IsProper) {ws : List Word} {rest : List Char}
    (h : Splits l x ws rest) (offset : Nat) : ∀ t ∈ Word.tokens offset ws, t.IsLexed l := by
  induction h generalizing offset with
  | nil =>
    intro t ht
    cases ht
  | cons hfits _ ih =>
    intro t ht
    rcases List.mem_cons.mp ht with rfl | ht
    · exact hfits.isLexed hx offset
    · exact ih (hx.next hfits) _ t ht

end Lexer

namespace BinaryOperator

theorem strength?_symbol : ∀ op ∈ all, strength? op.symbol = some ⟨op.level?.getD 0, .left⟩ := by
  decide

theorem ofSymbol_symbol : ∀ op ∈ all, ofSymbol op.symbol = op := by
  decide

end BinaryOperator

/-- The operators among tokens of the lexer are operators of the language. -/
theorem Expr.hasOperators_of_isLexed {l : Locale} {ts : List Token} (h : ∀ t ∈ ts, t.IsLexed l) :
    HasOperators ts := by
  intro t ht hkind
  obtain ⟨op, hop, htext⟩ := (h t ht).infixed hkind
  refine ⟨op.level?.getD 0, hkind, ?_⟩
  unfold Token.strength?
  rw [if_neg (by rw [hkind]; decide), htext]
  exact BinaryOperator.strength?_symbol op hop

/-- **A formula is parsed to the tree that its words derive.** -/
theorem Expr.parse_eq_ok_iff {l : Locale} (hl : l.HasPlainSeparator) {cs : List Char} {x : Expr} :
    Expr.parse l (String.ofList ('=' :: cs)) = .ok x ↔
      ∃ ws, Word.sources ws = cs ∧ Splits l {} ws [] ∧ (Context.after {} ws).openers = [] ∧
        Derives l (.joined 0) ((Word.tokens 1 ws).filter fun t => t.kind != .blank) x := by
  have hproper : Context.IsProper {} := fun kind hmem => absurd hmem List.not_mem_nil
  have hderives : ∀ ws, Splits l {} ws [] → (ofTokens l (Word.tokens 1 ws) = .ok x ↔
      Derives l (.joined 0) ((Word.tokens 1 ws).filter fun t => t.kind != .blank) x) := by
    intro ws hsplits
    have hlexed := hsplits.isLexed hproper 1
    exact ofTokens_eq_ok_iff (hasOperators_of_isLexed hlexed) fun t ht => (hlexed t ht).notLiteral
  unfold parse
  constructor
  · intro h
    split at h
    · cases h
    · next tokens htokens =>
      obtain ⟨ws, hsources, hsplits, hopeners, rfl⟩ := (tokenize_eq_ok_iff hl).mp htokens
      exact ⟨ws, hsources, hsplits, hopeners, (hderives ws hsplits).mp h⟩
  · rintro ⟨ws, hsources, hsplits, hopeners, hderived⟩
    rw [(tokenize_eq_ok_iff hl).mpr ⟨ws, hsources, hsplits, hopeners, rfl⟩]
    exact (hderives ws hsplits).mpr hderived

end Spreadsheet
