import Spreadsheet.Formula.Reference
import Spreadsheet.Formula.Token.Lexer

/-!
# Lexing: which words a text falls into

A word is a token without its place. `Splits` says which words the lexer finds one by one, each from
what stands in it, from the first character that follows it, and from two things that the lexer
remembers: whether an operand has just ended, and which parentheses are open.

* `tokenize_eq_ok_iff` — the tokens of a formula are the words that it splits into, put side by side.

Whoever puts a formula together from words shows that they split, and never runs the lexer. Whoever has
a formula that was read gets its words, and may exchange some of them. The operand that the lexer is
gathering is described by `Gathers`, one rule for each way in which it grows.

One kind of word leaves out characters that stand in front of it: an operand that ends in a colon is
lost when a text in double quotes follows it.
-/

namespace Spreadsheet

/-- A token without its place. -/
structure Word where
  /-- Characters in front of the token that belong to no token. -/
  skipped : List Char := []
  chars : List Char
  kind : TokenKind
  role : TokenRole

namespace Word

/-- All the characters that a word takes up. -/
def source (w : Word) : List Char := w.skipped ++ w.chars

/-- Whether a sign after this word joins two operands. -/
def endsOperand (w : Word) : Bool :=
  w.role == .closing || w.kind == .postfixSign || w.kind == .operand

/-- The token of a word whose characters begin at a byte. -/
def token (w : Word) (offset : Nat) : Token :=
  ⟨String.ofList w.chars, w.kind, w.role,
    ⟨offset + Text.byteLength w.skipped, offset + Text.byteLength w.skipped + Text.byteLength w.chars⟩⟩

/-- The characters of words that stand side by side. -/
def sources (ws : List Word) : List Char := ws.flatMap source

/-- The tokens of words that stand side by side from a byte onwards. -/
def tokens : (offset : Nat) → List Word → List Token
  | _, [] => []
  | offset, w :: ws => w.token offset :: tokens (offset + Text.byteLength w.source) ws

theorem sources_cons (w : Word) (ws : List Word) : sources (w :: ws) = w.source ++ sources ws :=
  List.flatMap_cons

theorem sources_append (ws ws' : List Word) : sources (ws ++ ws') = sources ws ++ sources ws' :=
  List.flatMap_append

end Word

theorem Text.byteLength_append (a b : List Char) :
    Text.byteLength (a ++ b) = Text.byteLength a + Text.byteLength b := by
  induction a with
  | nil => exact (Nat.zero_add _).symm
  | cons c a ih =>
    rw [List.cons_append, byteLength, byteLength, ih, Nat.add_assoc]

/-- The tokens of words stand behind those of the words in front of them. -/
theorem Word.tokens_append (offset : Nat) (ws ws' : List Word) :
    tokens offset (ws ++ ws') = tokens offset ws ++ tokens (offset + Text.byteLength (sources ws)) ws' := by
  induction ws generalizing offset with
  | nil => rfl
  | cons w ws ih =>
    rw [List.cons_append, tokens, tokens, ih, sources_cons, Text.byteLength_append, List.cons_append,
      Nat.add_assoc]

theorem Word.exists_of_mem_tokens {offset : Nat} {ws : List Word} {t : Token} (h : t ∈ tokens offset ws) :
    ∃ w ∈ ws, t.kind = w.kind := by
  induction ws generalizing offset with
  | nil => cases h
  | cons w ws ih =>
    rcases List.mem_cons.mp h with rfl | h
    · exact ⟨w, List.mem_cons_self, rfl⟩
    · obtain ⟨w', hw', hkind⟩ := ih h
      exact ⟨w', List.mem_cons_of_mem w hw', hkind⟩

/-- The characters up to the first one that fails a test. -/
theorem Text.takeWhile_append_stop {p : Char → Bool} {a b : List Char} (ha : ∀ c ∈ a, p c = true)
    (hb : ∀ c ∈ b.head?, p c = false) : (a ++ b).takeWhile p = a := by
  rw [List.takeWhile_append_of_pos ha]
  match b with
  | [] => rw [List.takeWhile_nil, List.append_nil]
  | c :: b => rw [List.takeWhile_cons, hb c rfl, if_neg Bool.false_ne_true, List.append_nil]

/-- The characters from the first one onwards that fails a test. -/
theorem Text.dropWhile_append_stop {p : Char → Bool} {a b : List Char} (ha : ∀ c ∈ a, p c = true)
    (hb : ∀ c ∈ b.head?, p c = false) : (a ++ b).dropWhile p = b := by
  have h := List.takeWhile_append_dropWhile (p := p) (l := a ++ b)
  rw [takeWhile_append_stop ha hb] at h
  exact List.append_cancel_left h

theorem Text.takeWhile_all {p : Char → Bool} {cs : List Char} (h : ∀ c ∈ cs, p c = true) :
    cs.takeWhile p = cs := by
  have hstop := takeWhile_append_stop (b := []) h fun c hc => absurd hc (by simp)
  rw [List.append_nil] at hstop
  exact hstop

theorem Text.dropWhile_all {p : Char → Bool} {cs : List Char} (h : ∀ c ∈ cs, p c = true) :
    cs.dropWhile p = [] := by
  have hstop := dropWhile_append_stop (b := []) h fun c hc => absurd hc (by simp)
  rw [List.append_nil] at hstop
  exact hstop

/-- A text without blanks at its ends is left as it is. -/
theorem Text.trimBlanks_eq_self {s : String} (hfirst : ∀ c ∈ s.toList.head?, Text.isBlank c = false)
    (hlast : ∀ c ∈ s.toList.getLast?, Text.isBlank c = false) : Text.trimBlanks s = s := by
  have hkeep : ∀ cs : List Char, (∀ c ∈ cs.head?, Text.isBlank c = false) → cs.dropWhile Text.isBlank = cs := by
    intro cs h
    match cs with
    | [] => rfl
    | c :: cs => rw [List.dropWhile_cons, h c rfl, if_neg Bool.false_ne_true]
  unfold Text.trimBlanks
  rw [hkeep _ hfirst, hkeep _ (by rwa [List.head?_reverse]), List.reverse_reverse, String.ofList_toList]

/-- Characters with a meaning of their own in formulas: blanks, signs, brackets, quotes, and the marks of
references and error codes. -/
def reserved : List Char :=
  [' ', '\n', '\t', '\r', '+', '-', '*', '/', '^', '&', '=', '>', '<', '%', '(', ')', '{', '}', '[', ']',
    '"', '\'', '#', '!', ':', '$']

/-- A locale whose separator is an ASCII character without another meaning in formulas: it does not occur
in names and numbers and is not reserved. -/
structure Locale.HasPlainSeparator (l : Locale) : Prop where
  isAscii : l.separator.toNat < 128
  isNameChar_eq : isNameChar l.separator = false
  not_reserved : l.separator ∉ reserved

/-- A locale whose separator, if formulas can be read with it at all, has no other meaning in them. -/
def Locale.IsUnambiguous (l : Locale) : Prop := l.separator.toNat < 128 → l.HasPlainSeparator

theorem Locale.IsUnambiguous.hasPlainSeparator {l : Locale} (h : l.IsUnambiguous) {text : String}
    {ts : List Token} (htokens : tokenize l text = .ok ts) : l.HasPlainSeparator := by
  unfold tokenize at htokens
  split at htokens
  · cases htokens
  · next hascii => exact h (Nat.not_le.mp hascii)

/-- The two locales that come with the program. -/
def Locale.IsBuiltIn (l : Locale) : Prop := l = .invariant ∨ l = .commaDecimal

theorem Locale.IsBuiltIn.hasPlainSeparator {l : Locale} (h : l.IsBuiltIn) : l.HasPlainSeparator := by
  rcases h with rfl | rfl <;> exact ⟨by decide, by decide, by decide⟩

/-- A reserved character is no separator. -/
theorem Locale.HasPlainSeparator.ne_separator {l : Locale} (h : l.HasPlainSeparator) {c : Char}
    (hc : c ∈ reserved) : c ≠ l.separator := by
  rintro rfl
  exact h.not_reserved hc

namespace Lexer

variable {l : Locale}

theorem operandRole_ne (l : Locale) (cs : List Char) :
    operandRole l cs ≠ .opening ∧ operandRole l cs ≠ .closing := by
  unfold operandRole
  constructor
  all_goals
    dsimp only
    repeat' split
    all_goals exact fun h => TokenRole.noConfusion h

/-! ### Gathering an operand -/

/-- The characters behind an opening quote, up to the one that closes it. -/
inductive Closes (quote : Char) : List Char → Prop
  | close : Closes quote [quote]
  | char {c : Char} {cs : List Char} : c ≠ quote → Closes quote cs → Closes quote (c :: cs)
  | twice {cs : List Char} : Closes quote cs → Closes quote (quote :: quote :: cs)

/-- Characters with which the lexer does something else than to add them to an operand. -/
def isSpecial (l : Locale) (c : Char) : Bool :=
  endsOperand l.separator c || c == '"' || c == '\'' || c == '#' || c == '(' || c == '{' || c == '[' ||
    c == ']'

/-- A sign that belongs to the number in front of it. -/
def IsExponentSign (l : Locale) (operand : List Char) (c : Char) : Prop :=
  (c = '+' ∨ c = '-') ∧ awaitsExponent l.decimal operand = true

/-- What the lexer gathers into one operand. -/
inductive Gathers (l : Locale) : List Char → Prop
  | nil : Gathers l []
  | char {operand : List Char} {c : Char} : Gathers l operand →
      isSpecial l c = false ∨ IsExponentSign l operand c → Gathers l (operand ++ [c])
  | name {operand cs : List Char} : Gathers l operand → operand = [] ∨ operand.getLast? = some ':' →
      Closes '\'' cs → Gathers l (operand ++ '\'' :: cs)

/-- What follows a quoted name does not go on with it. -/
def NameEnds (operand rest : List Char) : Prop :=
  operand.getLast? = some '\'' → rest.head? ≠ some '\''

/-- Whether the character that follows an operand ends it without becoming a part of its token. -/
def Cuts (l : Locale) (operand : List Char) : List Char → Prop
  | [] => True
  | c :: _ => (endsOperand l.separator c = true ∧ ¬IsExponentSign l operand c) ∨
      ((c = '"' ∨ c = '\'' ∧ operand.getLast? ≠ some '\'') ∧ operand.getLast? ≠ some ':') ∨
      (c = '#' ∧ operand.getLast? ≠ some '!')

/-- The characters of an error code, in either case. -/
def IsErrorCode (cs : List Char) : Prop :=
  ∃ kind : ErrorKind, cs.map Char.toLower = kind.code.toList.map Char.toLower

/-! ### Splitting into words -/

/-- What the lexer remembers between two words: whether a sign would join two operands, and the
parentheses that are open, innermost first. -/
structure Context where
  joins : Bool := false
  openers : List TokenKind := []

/-- The kind of a sign of one character. -/
def Context.signKind (x : Context) (c : Char) : TokenKind :=
  if c = '%' then .postfixSign else if (c = '+' ∨ c = '-') ∧ !x.joins then .prefixSign else .infixSign

/-- What the lexer remembers behind a word. -/
def Context.next (x : Context) (w : Word) : Context where
  joins := if w.kind = .blank then x.joins else w.endsOperand
  openers :=
    if w.role = .opening then w.kind :: x.openers
    else if w.role = .closing then x.openers.tail
    else x.openers

/-- Two characters that are one operator. -/
abbrev IsPair (c d : Char) : Prop :=
  (c = '>' ∧ d = '=') ∨ (c = '<' ∧ d = '=') ∨ (c = '<' ∧ d = '>')

/-- A word that the lexer finds in front of `rest`. -/
inductive Fits (l : Locale) (x : Context) : Word → (rest : List Char) → Prop
  | operand {cs rest : List Char} : Gathers l cs → cs ≠ [] → Cuts l cs rest →
      Fits l x ⟨[], cs, .operand, operandRole l cs⟩ rest
  | text {lost cs rest : List Char} : Gathers l lost → lost = [] ∨ lost.getLast? = some ':' →
      Closes '"' cs → rest.head? ≠ some '"' → Fits l x ⟨lost, '"' :: cs, .operand, .text⟩ rest
  | error {qualifier code rest : List Char} : Gathers l qualifier →
      qualifier = [] ∨ qualifier.getLast? = some '!' → IsErrorCode ('#' :: code) →
      Fits l x ⟨[], qualifier ++ '#' :: code, .operand, .error⟩ rest
  | blank {c : Char} {cs rest : List Char} : isSpace c = true → (∀ d ∈ cs, isSpace d = true) →
      (∀ d ∈ rest.head?, isSpace d = false) → Fits l x ⟨[], c :: cs, .blank, .plain⟩ rest
  | pair {c d : Char} {rest : List Char} : IsPair c d → Fits l x ⟨[], [c, d], .infixSign, .plain⟩ rest
  | sign {c : Char} {rest : List Char} : isSign c = true → (∀ d ∈ rest.head?, ¬IsPair c d) →
      Fits l x ⟨[], [c], x.signKind c, .plain⟩ rest
  | group {rest : List Char} : Fits l x ⟨[], ['('], .group, .opening⟩ rest
  | call {name rest : List Char} : Gathers l name → name ≠ [] →
      Fits l x ⟨[], name ++ ['('], .call, .opening⟩ rest
  | close {kind : TokenKind} {outer : List TokenKind} {rest : List Char} : x.openers = kind :: outer →
      Fits l x ⟨[], [')'], kind, .closing⟩ rest
  | separator {rest : List Char} : x.openers.head? = some .call →
      Fits l x ⟨[], [l.separator], .separator, .argument⟩ rest

/-- Words that the lexer finds one after the other in front of `rest`. -/
inductive Splits (l : Locale) : Context → List Word → (rest : List Char) → Prop
  | nil {x : Context} {rest : List Char} : Splits l x [] rest
  | cons {x : Context} {w : Word} {ws : List Word} {rest : List Char} :
      Fits l x w (Word.sources ws ++ rest) → Splits l (x.next w) ws rest → Splits l x (w :: ws) rest

/-- What the lexer remembers behind words. -/
def Context.after (x : Context) (ws : List Word) : Context := ws.foldl Context.next x

theorem Context.after_append (x : Context) (ws ws' : List Word) :
    x.after (ws ++ ws') = (x.after ws).after ws' :=
  List.foldl_append

/-- What the lexer remembers behind an operand. -/
theorem Context.next_operand (x : Context) {w : Word} (hkind : w.kind = .operand)
    (hrole : w.role ≠ .opening ∧ w.role ≠ .closing) : x.next w = { x with joins := true } := by
  have hblank : w.kind ≠ .blank := by
    rw [hkind]
    decide
  have hends : w.endsOperand = true := by
    rw [Word.endsOperand, hkind]
    exact Bool.or_true _
  rw [Context.next, if_neg hblank, if_neg hrole.1, if_neg hrole.2, hends]

/-- Words split if the first ones do and then the others. -/
theorem Splits.append {x : Context} {ws ws' : List Word} {rest : List Char}
    (h : Splits l x ws (Word.sources ws' ++ rest)) (h' : Splits l (x.after ws) ws' rest) :
    Splits l x (ws ++ ws') rest := by
  induction ws generalizing x with
  | nil => exact h'
  | cons w ws ih =>
    cases h with
    | cons hfits hsplits =>
      have hfits' : Fits l x w (Word.sources (ws ++ ws') ++ rest) := by
        rw [Word.sources_append, List.append_assoc]
        exact hfits
      exact .cons hfits' (ih hsplits h')

/-! ### What may stand next to a word -/

/-- What follows ends an operand. -/
def Ends (l : Locale) (rest : List Char) : Prop := ∀ c ∈ rest.head?, endsOperand l.separator c = true

theorem ends_nil : Ends l [] := fun c hc => absurd hc (by simp)

theorem ends_cons {c : Char} (h : endsOperand l.separator c = true) (rest : List Char) :
    Ends l (c :: rest) := by
  rintro d ⟨⟩
  exact h

/-- A character that neither goes on with a blank nor turns a comparison in front of it into another. -/
def Starts (cs : List Char) : Prop := ∃ c rest, cs = c :: rest ∧ c ≠ '=' ∧ c ≠ '>' ∧ isSpace c = false

theorem Starts.append {cs : List Char} (h : Starts cs) (more : List Char) : Starts (cs ++ more) := by
  obtain ⟨c, rest, rfl, hc⟩ := h
  exact ⟨c, rest ++ more, rfl, hc⟩

theorem starts_of_gathers {cs : List Char} (h : Gathers l cs) (hne : cs ≠ []) : Starts cs := by
  induction h with
  | nil => exact absurd rfl hne
  | @char operand c _ hc ih =>
    by_cases hnil : operand = []
    · subst hnil
      refine ⟨c, [], rfl, ?_⟩
      rcases hc with hplain | hsign
      · simp only [isSpecial, endsOperand, isSign, Bool.or_eq_false_iff, beq_eq_false_iff_ne] at hplain
        simp [hplain]
      · rcases hsign.1 with rfl | rfl <;> decide
    · exact (ih hnil).append [c]
  | @name operand cs _ _ _ ih =>
    by_cases hnil : operand = []
    · subst hnil
      exact ⟨'\'', cs, rfl, by decide⟩
    · exact (ih hnil).append _

theorem source_ne_nil {x : Context} {w : Word} {rest : List Char} (h : Fits l x w rest) : w.source ≠ [] := by
  cases h <;> simp_all [Word.source]

theorem Cuts.congr {operand rest rest' : List Char} (h : Cuts l operand rest)
    (hhead : rest'.head? = rest.head?) : Cuts l operand rest' := by
  cases rest with
  | nil =>
    rw [List.head?_nil, List.head?_eq_none_iff] at hhead
    rw [hhead]
    exact h
  | cons c rest =>
    obtain ⟨more, rfl⟩ := List.head?_eq_some_iff.mp hhead
    exact h

/-- A word fits in front of anything that begins in the same way, and one that is no operand in front of
any other operand. -/
theorem Fits.exchange {x : Context} {w : Word} {rest rest' : List Char} (h : Fits l x w rest)
    (hrest : rest'.head? = rest.head? ∨ w.kind ≠ .operand ∧ Starts rest') : Fits l x w rest' := by
  have hhead : w.kind = .operand → rest'.head? = rest.head? := fun hkind =>
    hrest.resolve_right fun hother => hother.1 hkind
  cases h with
  | operand hgathers hne hcuts => exact .operand hgathers hne (hcuts.congr (hhead rfl))
  | text hlost hlast hcloses hquote =>
    rw [← hhead rfl] at hquote
    exact .text hlost hlast hcloses hquote
  | error hqualifier hlast hcode => exact .error hqualifier hlast hcode
  | blank hc hcs hstop =>
    refine .blank hc hcs ?_
    rcases hrest with hsame | ⟨-, d, more, rfl, -, -, hd⟩
    · rw [hsame]
      exact hstop
    · rintro d' ⟨⟩
      exact hd
  | pair hpair => exact .pair hpair
  | sign hc hpair =>
    refine .sign hc ?_
    rcases hrest with hsame | ⟨-, d, more, rfl, hequal, hgreater, -⟩
    · rw [hsame]
      exact hpair
    · rintro d' ⟨⟩ hpair'
      rcases hpair' with h | h | h
      · exact hequal h.2
      · exact hequal h.2
      · exact hgreater h.2
  | group => exact .group
  | call hname hne => exact .call hname hne
  | close hopeners => exact .close hopeners
  | separator hopen => exact .separator hopen

/-! ### States between words -/

namespace State

/-- No operand is being gathered. -/
structure IsFresh (s : State) : Prop where
  operand : s.operand = []
  start : s.start = s.offset

/-- What the lexer remembers at a state. -/
def context (s : State) : Context := ⟨s.afterOperand, s.openers⟩

/-- The state behind a word. -/
def put (s : State) (w : Word) : State :=
  { ({ s with offset := s.offset + Text.byteLength w.skipped }.push w.kind w.role w.chars) with
    openers := (s.context.next w).openers }

/-- The state behind words. -/
def putAll (s : State) (ws : List Word) : State := ws.foldl put s

theorem isFresh_put (s : State) (w : Word) : (s.put w).IsFresh := ⟨rfl, rfl⟩

theorem offset_put (s : State) (w : Word) : (s.put w).offset = s.offset + Text.byteLength w.source := by
  unfold Word.source
  rw [Text.byteLength_append, ← Nat.add_assoc]
  rfl

theorem tokens_put (s : State) (w : Word) : (s.put w).tokens = w.token s.offset :: s.tokens := rfl

theorem context_put (s : State) (w : Word) : (s.put w).context = s.context.next w := by
  unfold context Context.next
  have hjoins : (s.put w).afterOperand = if w.kind = .blank then s.afterOperand else w.endsOperand := by
    unfold afterOperand
    rw [tokens_put, List.find?_cons]
    by_cases hblank : w.kind = .blank
    · have htest : ((w.token s.offset).kind != .blank) = false := by
        rw [bne_eq_false_iff_eq]
        exact hblank
      rw [htest, if_pos hblank]
    · have htest : ((w.token s.offset).kind != .blank) = true := bne_iff_ne.mpr hblank
      rw [htest, if_neg hblank]
      rfl
  rw [hjoins]
  rfl

theorem IsFresh.putAll {s : State} (h : s.IsFresh) (ws : List Word) : (s.putAll ws).IsFresh := by
  induction ws generalizing s with
  | nil => exact h
  | cons w ws ih => exact ih (s.isFresh_put w)

theorem tokens_putAll (s : State) (ws : List Word) :
    (s.putAll ws).tokens = (Word.tokens s.offset ws).reverse ++ s.tokens := by
  induction ws generalizing s with
  | nil => rfl
  | cons w ws ih =>
    have h : (s.putAll (w :: ws)).tokens = ((s.put w).putAll ws).tokens := rfl
    rw [h, ih, tokens_put, offset_put, Word.tokens, List.reverse_cons, List.append_assoc,
      List.singleton_append]

theorem context_putAll (s : State) (ws : List Word) : (s.putAll ws).context = s.context.after ws := by
  induction ws generalizing s with
  | nil => rfl
  | cons w ws ih =>
    have h : (s.putAll (w :: ws)).context = ((s.put w).putAll ws).context := rfl
    rw [h, ih, context_put]
    rfl

theorem IsFresh.extend_nil {s : State} (h : s.IsFresh) : s.extend [] = s := by
  obtain ⟨offset, start, operand, openers, tokens⟩ := s
  obtain ⟨hoperand, hstart⟩ := h
  cases hoperand
  cases hstart
  rfl

theorem IsFresh.operand_extend {s : State} (h : s.IsFresh) (cs : List Char) :
    (s.extend cs).operand.reverse = cs := by
  unfold extend
  rw [h.operand, List.append_nil, List.reverse_reverse]

theorem extend_extend (s : State) (a b : List Char) : (s.extend a).extend b = s.extend (a ++ b) := by
  obtain ⟨offset, start, operand, openers, tokens⟩ := s
  unfold extend
  simp only [Text.byteLength_append, List.reverse_append, List.append_assoc, State.mk.injEq, and_true,
    true_and, Nat.add_assoc]
  by_cases ha : a = []
  · subst ha
    by_cases hoperand : operand = [] <;> simp [Text.byteLength, hoperand]
  · simp [ha]

theorem flush_of_fresh {s : State} (h : s.operand = []) : s.flush l = s := if_pos h

theorem operand_flush (s : State) : (s.flush l).operand = [] := by
  unfold flush
  split
  · assumption
  · unfold pushWithOperand
    split <;> rfl

theorem IsFresh.pushWithOperand_extend {s : State} (h : s.IsFresh) {cs : List Char} (hne : cs ≠ [])
    (kind : TokenKind) (role : TokenRole) (more : List Char) :
    (s.extend cs).pushWithOperand kind role more = s.push kind role (cs ++ more) := by
  obtain ⟨offset, start, operand, openers, tokens⟩ := s
  obtain ⟨hoperand, hstart⟩ := h
  cases hoperand
  cases hstart
  unfold pushWithOperand
  rw [if_neg (by simpa [extend] using hne)]
  simp [extend, push, Text.byteLength_append, Nat.add_assoc]

theorem IsFresh.operand_extend_ne {s : State} (h : s.IsFresh) {cs : List Char} (hne : cs ≠ []) :
    (s.extend cs).operand ≠ [] := by
  intro hnil
  have hcs := h.operand_extend cs
  rw [hnil] at hcs
  exact hne hcs.symm

theorem IsFresh.pushWithOperand_error {s : State} (h : s.IsFresh) (cs code : List Char) :
    (s.extend cs).pushWithOperand .operand .error code = s.put ⟨[], cs ++ code, .operand, .error⟩ := by
  by_cases hnil : cs = []
  · subst hnil
    rw [h.extend_nil, pushWithOperand, if_pos h.operand]
    rfl
  · rw [h.pushWithOperand_extend hnil]
    rfl

theorem IsFresh.flush_extend {s : State} (h : s.IsFresh) {cs : List Char} (hne : cs ≠ []) :
    (s.extend cs).flush l = s.put ⟨[], cs, .operand, operandRole l cs⟩ := by
  have hnext : (s.context.next ⟨[], cs, .operand, operandRole l cs⟩).openers = s.openers := by
    obtain ⟨hopening, hclosing⟩ := operandRole_ne l cs
    unfold Context.next
    dsimp only
    rw [if_neg hopening, if_neg hclosing]
    rfl
  unfold flush
  rw [if_neg (h.operand_extend_ne hne), h.operand_extend, h.pushWithOperand_extend hne, List.append_nil]
  unfold put
  rw [hnext]
  rfl

theorem IsFresh.flushUnlessLast_extend {s : State} (h : s.IsFresh) {cs : List Char} {c : Char}
    (hlast : cs = [] ∨ cs.getLast? = some c) : (s.extend cs).flushUnlessLast l c = s.extend cs := by
  unfold flushUnlessLast
  rcases hlast with rfl | hlast
  · rw [h.extend_nil, flush_of_fresh h.operand, ite_self]
  · rw [← List.getLast?_reverse, h.operand_extend, if_pos hlast]

end State

/-! ### Steps of the lexer -/

theorem run_of_step {s next : State} {c : Char} {cs : List Char} {n : Nat}
    (h : step l s c cs = .ok (next, n)) : run l s (c :: cs) = run l next (cs.drop n) := by
  rw [run, h]

/-- A character that goes on with the operand is added to it. -/
theorem step_extend {s : State} {c : Char} {cs : List Char}
    (h : isSpecial l c = false ∨ IsExponentSign l s.operand.reverse c) :
    step l s c cs = .ok (s.extend [c], 0) := by
  rcases h with hplain | hsign
  · have hends : endsOperand l.separator c = false := by
      simp only [isSpecial, Bool.or_eq_false_iff] at hplain
      exact hplain.1.1.1.1.1.1.1
    have hends' := hends
    simp only [endsOperand, isSpace, isSign, Bool.or_eq_false_iff, beq_eq_false_iff_ne] at hends'
    simp only [isSpecial, Bool.or_eq_false_iff, beq_eq_false_iff_ne] at hplain
    unfold step
    simp [hends, hends', hplain, isSpace, isSign]
  · exact if_pos hsign

/-- Quotes and the mark of error codes are no separators. -/
theorem endsOperand_eq_false (hl : l.HasPlainSeparator) {c : Char}
    (hc : c = '"' ∨ c = '\'' ∨ c = '#' ∨ c = '(') : endsOperand l.separator c = false := by
  have hne : c ≠ l.separator := hl.ne_separator (by rcases hc with rfl | rfl | rfl | rfl <;> decide)
  have hsigns : (isSpace c || isSign c || c == ')' || c == '}') = false := by
    rcases hc with rfl | rfl | rfl | rfl <;> decide
  rw [endsOperand, hsigns, Bool.false_or, beq_eq_false_iff_ne]
  exact hne

theorem not_isExponentSign {operand : List Char} {c : Char} (h : c ≠ '+' ∧ c ≠ '-') :
    ¬IsExponentSign l operand c :=
  fun hsign => hsign.1.elim h.1 h.2

theorem step_quote (hl : l.HasPlainSeparator) {c : Char} (hc : c = '"' ∨ c = '\'') (s : State)
    (cs : List Char) : step l s c cs = stepQuote l s c cs := by
  have hends : endsOperand l.separator c = false :=
    endsOperand_eq_false hl (hc.elim Or.inl fun h => Or.inr (Or.inl h))
  have hsign : ¬(c = '+' ∨ c = '-') := by
    rcases hc with rfl | rfl <;> decide
  simp only [step, hsign, false_and, if_false, hends, hc, if_true, Bool.false_eq_true]

theorem step_error (hl : l.HasPlainSeparator) (s : State) (cs : List Char) :
    step l s '#' cs = stepErrorCode l s '#' cs := by
  have hends : endsOperand l.separator '#' = false :=
    endsOperand_eq_false hl (Or.inr (Or.inr (Or.inl rfl)))
  simp [step, hends]

theorem step_blank {s : State} (hs : s.operand = []) {c : Char} (hc : isSpace c = true) (cs : List Char) :
    step l s c cs =
      .ok (s.push .blank .plain (c :: cs.takeWhile isSpace), (cs.takeWhile isSpace).length) := by
  simp only [isSpace, Bool.or_eq_true, beq_iff_eq] at hc
  rcases hc with ((rfl | rfl) | rfl) | rfl <;>
    simp [step, endsOperand, isSpace, State.flush_of_fresh hs]

theorem step_sign {s : State} (hs : s.operand = []) {c : Char} (hc : isSign c = true) (cs : List Char) :
    step l s c cs = .ok (stepSign l s c cs) := by
  have hends : endsOperand l.separator c = true := by
    simp only [endsOperand, hc, Bool.or_true, Bool.true_or]
  have hawaits : awaitsExponent l.decimal [] = false := rfl
  simp only [isSign, Bool.or_eq_true, beq_iff_eq] at hc
  simp only [step, hs, List.reverse_nil, hawaits, Bool.false_eq_true, and_false, if_false, hends, if_true,
    State.flush_of_fresh hs]
  rcases hc with ((((((((rfl | rfl) | rfl) | rfl) | rfl) | rfl) | rfl) | rfl) | rfl) | rfl <;>
    simp [isSpace, isSign]

theorem step_opening (hl : l.HasPlainSeparator) (s : State) (cs : List Char) :
    step l s '(' cs =
      .ok ({ s.pushWithOperand (if s.operand = [] then .group else .call) .opening ['('] with
        openers := (if s.operand = [] then .group else .call) :: s.openers }, 0) := by
  have hends : endsOperand l.separator '(' = false :=
    endsOperand_eq_false hl (Or.inr (Or.inr (Or.inr rfl)))
  simp [step, hends, isSpace, isSign]

theorem step_closing (s : State) (cs : List Char) :
    step l s ')' cs =
      if (s.flush l).openers = [] then .error (.unopenedParenthesis (s.flush l).offset)
      else .ok ({ (s.flush l).push ((s.flush l).openers.headD .group) .closing [')'] with
        openers := (s.flush l).openers.tail }, 0) := by
  have hends : endsOperand l.separator ')' = true := by simp [endsOperand]
  simp only [step, hends]
  cases h : (s.flush l).openers <;> simp [isSpace, isSign, h]

theorem step_separator (hl : l.HasPlainSeparator) (s : State) (cs : List Char) :
    step l s l.separator cs =
      if (s.flush l).openers.head? = some .call then
        .ok ((s.flush l).push .separator .argument [l.separator], 0)
      else .error (.separatorOutsideCall l.separator (s.flush l).offset) := by
  have hends : endsOperand l.separator l.separator = true := by simp [endsOperand]
  have hnot := hl.not_reserved
  simp only [reserved, List.mem_cons, not_or] at hnot
  simp only [step, hends]
  simp [hnot, isSpace, isSign]

/-- An operand that is cut by what follows may as well be ended first. -/
theorem run_flush (hl : l.HasPlainSeparator) {s : State} {rest : List Char}
    (h : Cuts l s.operand.reverse rest) : run l s rest = run l (s.flush l) rest := by
  by_cases hoperand : s.operand = []
  · rw [State.flush_of_fresh hoperand]
  have hflush : ((s.flush l).flush l) = s.flush l := State.flush_of_fresh (State.operand_flush s)
  have hlast : s.operand.reverse.getLast? = s.operand.head? := List.getLast?_reverse
  have hunless : ∀ c, (s.flush l).flushUnlessLast l c = s.flush l := by
    intro c
    unfold State.flushUnlessLast
    rw [State.operand_flush, hflush]
    exact if_neg (by simp)
  match rest with
  | [] => rw [run, run, hflush]
  | c :: cs =>
    have hstep : step l s c cs = step l (s.flush l) c cs := by
      rcases h with ⟨hends, hsign⟩ | ⟨hquote, hcolon⟩ | ⟨rfl, hmark⟩
      · have hfresh : ¬((c = '+' ∨ c = '-') ∧ awaitsExponent l.decimal (s.flush l).operand.reverse = true) := by
          rw [State.operand_flush]
          rintro ⟨-, hawaits⟩
          cases hawaits
        have hsign' : ¬((c = '+' ∨ c = '-') ∧ awaitsExponent l.decimal s.operand.reverse = true) := hsign
        simp only [step, if_neg hsign', if_neg hfresh, if_pos hends, hflush]
      · have hc : c = '"' ∨ c = '\'' := hquote.imp_right And.left
        have hkept : s.flushUnlessLast l ':' = s.flush l := by
          rw [hlast] at hcolon
          exact if_neg hcolon
        rw [step_quote hl hc, step_quote hl hc, stepQuote, stepQuote, hunless, hkept]
      · have hkept : s.flushUnlessLast l '!' = s.flush l := by
          rw [hlast] at hmark
          exact if_neg hmark
        rw [step_error hl, step_error hl, stepErrorCode, stepErrorCode, hunless, hkept]
    rw [run, run, hstep]

/-! ### Quotes and error codes -/

theorem quotedLength_of_closes {quote : Char} {cs rest : List Char} (h : Closes quote cs)
    (hrest : rest.head? ≠ some quote) : quotedLength quote (cs ++ rest) = some cs.length := by
  induction h with
  | close =>
    match rest with
    | [] => simp [quotedLength]
    | d :: rest =>
      have hd : d ≠ quote := fun h => hrest (congrArg some h)
      simp [quotedLength, hd]
  | @char c cs hc hcs ih =>
    have hcons : ∃ d ds, cs ++ rest = d :: ds := by
      cases hcs <;> exact ⟨_, _, rfl⟩
    obtain ⟨d, ds, hds⟩ := hcons
    rw [List.cons_append, hds, quotedLength, if_neg hc, ← hds, ih]
    rfl
  | @twice cs hcs ih =>
    rw [List.cons_append, List.cons_append, quotedLength, if_pos rfl, if_pos rfl, ih]
    rfl

theorem closes_of_quotedLength {quote : Char} {cs : List Char} {n : Nat}
    (h : quotedLength quote cs = some n) :
    Closes quote (cs.take n) ∧ (cs.drop n).head? ≠ some quote := by
  induction cs using quotedLength.induct quote generalizing n with
  | case1 => cases h
  | case2 => 
    simp only [quotedLength, if_true, Option.some.injEq] at h
    subst h
    exact ⟨.close, by simp⟩
  | case3 c hc =>
    simp [quotedLength, hc] at h
  | case4 cs ih =>
    simp only [quotedLength, if_true, Option.map_eq_some_iff] at h
    obtain ⟨m, hm, rfl⟩ := h
    obtain ⟨hcloses, hhead⟩ := ih hm
    exact ⟨.twice hcloses, hhead⟩
  | case5 d cs hd =>
    simp only [quotedLength, if_true, if_neg hd, Option.some.injEq] at h
    subst h
    refine ⟨.close, ?_⟩
    simpa using hd
  | case6 c d cs hc ih =>
    simp only [quotedLength, if_neg hc, Option.map_eq_some_iff] at h
    obtain ⟨m, hm, rfl⟩ := h
    obtain ⟨hcloses, hhead⟩ := ih hm
    exact ⟨.char hc hcloses, hhead⟩

theorem Closes.getLast? {quote : Char} {cs : List Char} (h : Closes quote cs) :
    cs.getLast? = some quote := by
  induction h with
  | close => rfl
  | char hc hcs ih => 
    rw [List.getLast?_cons, ih]
    rfl
  | twice hcs ih => 
    rw [List.getLast?_cons, List.getLast?_cons, ih]
    rfl

theorem splitAsciiStart_isSome_iff {expected cs : List Char} :
    (Text.splitAsciiStart expected cs).isSome = true ↔
      expected.map Char.toLower <+: cs.map Char.toLower := by
  induction expected generalizing cs with
  | nil => simp [Text.splitAsciiStart]
  | cons e es ih =>
    cases cs with
    | nil => simp [Text.splitAsciiStart]
    | cons c cs =>
      rw [Text.splitAsciiStart, List.map_cons, List.map_cons, List.cons_prefix_cons]
      by_cases hc : e.toLower = c.toLower
      · rw [if_pos hc, Option.isSome_map, ih, and_iff_right hc]
      · rw [if_neg hc]
        simp [hc]

/-- No error code begins like another one. -/
theorem code_eq_of_start : ∀ kind ∈ ErrorKind.all, ∀ kind' ∈ ErrorKind.all,
    kind.code.toList.map Char.toLower <+: kind'.code.toList.map Char.toLower → kind = kind' := by
  decide

theorem mem_all (kind : ErrorKind) : kind ∈ ErrorKind.all := by
  cases kind <;> decide

theorem errorCodeLength_of_isErrorCode {code : List Char} (h : IsErrorCode code) (rest : List Char) :
    errorCodeLength (code ++ rest) = some code.length := by
  obtain ⟨kind, hkind⟩ := h
  have honly : ∀ kind', (Text.splitAsciiStart kind'.code.toList (code ++ rest)).isSome = true →
      kind' = kind := by
    intro kind' hstart
    rw [splitAsciiStart_isSome_iff, List.map_append, hkind] at hstart
    rcases List.prefix_or_prefix_of_prefix hstart (List.prefix_append _ _) with hleading | hleading
    · exact code_eq_of_start kind' (mem_all kind') kind (mem_all kind) hleading
    · exact (code_eq_of_start kind (mem_all kind) kind' (mem_all kind') hleading).symm
  have hfound : (Text.splitAsciiStart kind.code.toList (code ++ rest)).isSome = true := by
    rw [splitAsciiStart_isSome_iff, List.map_append, hkind]
    exact List.prefix_append _ _
  have hsome : (errorCodeLength (code ++ rest)).isSome = true := by
    unfold errorCodeLength
    rw [List.findSome?_isSome_iff]
    exact ⟨kind, mem_all kind, by rw [Option.isSome_map]; exact hfound⟩
  obtain ⟨n, hn⟩ := Option.isSome_iff_exists.mp hsome
  rw [hn]
  unfold errorCodeLength at hn
  obtain ⟨kind', -, hsplit⟩ := List.exists_of_findSome?_eq_some hn
  obtain ⟨split, hsplit, hlength⟩ := Option.map_eq_some_iff.mp hsplit
  have hsame : kind' = kind := honly kind' (by rw [hsplit]; rfl)
  have hmatched := Text.length_of_splitAsciiStart hsplit
  rw [← hlength, hmatched, hsame, Option.some.injEq, ← List.length_map Char.toLower, ← hkind,
    List.length_map]

theorem isErrorCode_of_errorCodeLength {cs : List Char} {n : Nat} (h : errorCodeLength cs = some n) :
    IsErrorCode (cs.take n) := by
  obtain ⟨kind, -, hmap⟩ := List.exists_of_findSome?_eq_some h
  obtain ⟨split, hsplit, rfl⟩ := Option.map_eq_some_iff.mp hmap
  have hstart := splitAsciiStart_isSome_iff.mp (Option.isSome_iff_exists.mpr ⟨_, hsplit⟩)
  have hcs : cs = split.1 ++ split.2 := Text.splitAsciiStart_append hsplit
  have hlength : split.1.length = kind.code.toList.length := Text.length_of_splitAsciiStart hsplit
  refine ⟨kind, ?_⟩
  rw [hcs, List.take_left]
  rw [hcs, List.map_append] at hstart
  have hlength' : (kind.code.toList.map Char.toLower).length = (split.1.map Char.toLower).length := by
    rw [List.length_map, List.length_map, hlength]
  have hleading := List.prefix_of_prefix_length_le hstart (List.prefix_append _ _) (Nat.le_of_eq hlength')
  exact (hleading.eq_of_length hlength').symm

/-! ### From words to tokens -/

/-- The lexer gathers an operand character by character. -/
theorem run_gathers (hl : l.HasPlainSeparator) {operand : List Char} (h : Gathers l operand) {s : State}
    (hs : s.IsFresh) {rest : List Char} (hrest : NameEnds operand rest) :
    run l s (operand ++ rest) = run l (s.extend operand) rest := by
  induction h generalizing rest with
  | nil => rw [hs.extend_nil, List.nil_append]
  | @char operand c hoperand hc ih =>
    have hends : NameEnds operand (c :: rest) := by
      intro _ hquote
      rw [List.head?_cons, Option.some.injEq] at hquote
      subst hquote
      rcases hc with hc | hc
      · simp [isSpecial] at hc
      · exact not_isExponentSign ⟨by decide, by decide⟩ hc
    have hstep : step l (s.extend operand) c rest = .ok ((s.extend operand).extend [c], 0) := by
      refine step_extend ?_
      rw [hs.operand_extend]
      exact hc
    rw [List.append_assoc, List.singleton_append, ih hends, run_of_step hstep, List.drop_zero,
      State.extend_extend]
  | @name operand cs hoperand hlast hcs ih =>
    have hends : NameEnds operand ('\'' :: (cs ++ rest)) := by
      intro hquote
      rcases hlast with rfl | hlast
      · cases hquote
      · rw [hlast] at hquote
        cases hquote
    have hhead : rest.head? ≠ some '\'' := by
      refine hrest ?_
      rw [List.getLast?_append, List.getLast?_cons, hcs.getLast?]
      rfl
    have hstep : step l (s.extend operand) '\'' (cs ++ rest) =
        .ok ((s.extend operand).extend ('\'' :: cs), cs.length) := by
      rw [step_quote hl (Or.inr rfl), stepQuote, hs.flushUnlessLast_extend hlast,
        quotedLength_of_closes hcs hhead]
      dsimp only
      rw [if_neg (by decide), List.take_left]
    rw [List.append_assoc, List.cons_append, ih hends, run_of_step hstep, List.drop_left,
      State.extend_extend]

/-- The lexer takes a word that ends with what one step reads, behind gathered characters. -/
theorem run_of_word (hl : l.HasPlainSeparator) {s : State} (hs : s.IsFresh) {gathered : List Char}
    (hgathered : Gathers l gathered) {w : Word} {c : Char} (cs : List Char) {rest : List Char}
    (hends : NameEnds gathered (c :: (cs ++ rest))) (hsource : w.source = gathered ++ c :: cs)
    (hstep : step l (s.extend gathered) c (cs ++ rest) = .ok (s.put w, cs.length)) :
    run l s (w.source ++ rest) = run l (s.put w) rest := by
  rw [hsource, List.append_assoc, List.cons_append, run_gathers hl hgathered hs hends, run_of_step hstep,
    List.drop_left]

/-- The lexer takes a word that one step reads. -/
theorem run_of_mark {s : State} {w : Word} {c : Char} (cs : List Char) {rest : List Char}
    (hsource : w.source = c :: cs)
    (hstep : step l s c (cs ++ rest) = .ok (s.put w, cs.length)) :
    run l s (w.source ++ rest) = run l (s.put w) rest := by
  rw [hsource, List.cons_append, run_of_step hstep, List.drop_left]

/-- No quote that goes on with a name stands where an operand is cut off. -/
theorem nameEnds_of_cuts (hl : l.HasPlainSeparator) {operand rest : List Char} (h : Cuts l operand rest) :
    NameEnds operand rest := by
  intro hquote hhead
  cases rest with
  | nil => cases hhead
  | cons c rest =>
    rw [List.head?_cons, Option.some.injEq] at hhead
    subst hhead
    rcases h with ⟨hends, -⟩ | ⟨hname, -⟩ | ⟨hhash, -⟩
    · rw [endsOperand_eq_false hl (Or.inr (Or.inl rfl))] at hends
      exact Bool.noConfusion hends
    · rcases hname with hname | ⟨-, hname⟩
      · exact absurd hname (by decide)
      · exact hname hquote
    · exact absurd hhash (by decide)

theorem nameEnds_cons {operand : List Char} {c : Char} (hc : c ≠ '\'') (rest : List Char) :
    NameEnds operand (c :: rest) :=
  fun _ hhead => hc (Option.some.inj hhead)

/-- The lexer takes a word that fits. -/
theorem run_put (hl : l.HasPlainSeparator) {s : State} (hs : s.IsFresh) {w : Word} {rest : List Char}
    (h : Fits l s.context w rest) : run l s (w.source ++ rest) = run l (s.put w) rest := by
  cases h with
  | @operand cs _ hcs hne hcuts =>
    have hcuts' : Cuts l (s.extend cs).operand.reverse rest := by
      rw [hs.operand_extend]
      exact hcuts
    have hsource : Word.source ⟨[], cs, .operand, operandRole l cs⟩ = cs := rfl
    rw [hsource, run_gathers hl hcs hs (nameEnds_of_cuts hl hcuts), run_flush hl hcuts', hs.flush_extend hne]
  | @text lost cs _ hlost hlast hcs hhead =>
    refine run_of_word hl hs hlost cs (nameEnds_cons (by decide) _) rfl ?_
    rw [step_quote hl (Or.inl rfl), stepQuote, hs.flushUnlessLast_extend hlast,
      quotedLength_of_closes hcs hhead]
    dsimp only
    rw [if_pos rfl, List.take_left]
    rfl
  | @error qualifier code _ hqualifier hlast hcode =>
    refine run_of_word hl hs hqualifier code (nameEnds_cons (by decide) _) rfl ?_
    have hlength : errorCodeLength ('#' :: (code ++ rest)) = some (code.length + 1) :=
      errorCodeLength_of_isErrorCode hcode rest
    rw [step_error hl, stepErrorCode, hs.flushUnlessLast_extend hlast, hlength]
    dsimp only
    rw [List.take_succ_cons, List.take_left, hs.pushWithOperand_error, Nat.add_sub_cancel]
  | @blank c cs _ hc hcs hhead =>
    refine run_of_mark cs rfl ?_
    rw [step_blank hs.operand hc, Text.takeWhile_append_stop hcs hhead]
    rfl
  | @pair c d _ hpair =>
    refine run_of_mark [d] rfl ?_
    rcases hpair with ⟨rfl, rfl⟩ | ⟨rfl, rfl⟩ | ⟨rfl, rfl⟩ <;>
      simp [step, stepSign, endsOperand, isSpace, isSign, State.flush_of_fresh hs.operand] <;> rfl
  | @sign c _ hsign hpair =>
    refine run_of_mark [] rfl ?_
    rw [step_sign hs.operand hsign, List.nil_append]
    unfold stepSign
    rw [State.flush_of_fresh hs.operand]
    match rest with
    | [] => rfl
    | d :: rest =>
      dsimp only
      rw [if_neg (hpair d rfl)]
      rfl
  | group =>
    refine run_of_mark [] rfl ?_
    rw [step_opening hl, hs.operand, if_pos rfl, State.pushWithOperand, if_pos hs.operand]
    rfl
  | @call name _ hname hne =>
    refine run_of_word hl hs hname [] (nameEnds_cons (by decide) _) rfl ?_
    rw [step_opening hl, if_neg (hs.operand_extend_ne hne), hs.pushWithOperand_extend hne]
    rfl
  | @close kind outer _ hopeners =>
    have hopeners' : s.openers = kind :: outer := hopeners
    refine run_of_mark [] rfl ?_
    rw [step_closing, State.flush_of_fresh hs.operand, hopeners', if_neg (List.cons_ne_nil kind outer)]
    unfold State.put Context.next
    rw [hopeners]
    rfl
  | separator hopeners =>
    have hopeners' : s.openers.head? = some .call := hopeners
    refine run_of_mark [] rfl ?_
    rw [step_separator hl, State.flush_of_fresh hs.operand, if_pos hopeners']
    rfl

/-- The lexer takes words that split one after the other. -/
theorem run_putAll (hl : l.HasPlainSeparator) {s : State} (hs : s.IsFresh) {ws : List Word}
    {rest : List Char} (h : Splits l s.context ws rest) :
    run l s (Word.sources ws ++ rest) = run l (s.putAll ws) rest := by
  induction ws generalizing s with
  | nil => rfl
  | cons w ws ih =>
    cases h with
    | cons hfits hsplits =>
      rw [← State.context_put] at hsplits
      rw [Word.sources_cons, List.append_assoc, run_put hl hs hfits, ih (s.isFresh_put w) hsplits]
      rfl

/-! ### From tokens to words -/

/-- The lexer ends behind words that split, with no parenthesis open. -/
def EndsBehind (l : Locale) (b : State) (cs : List Char) (last : State) : Prop :=
  ∃ ws, Word.sources ws = cs ∧ Splits l b.context ws [] ∧ last = b.putAll ws ∧ last.openers = []

theorem EndsBehind.cons {b last : State} {w : Word} {cs : List Char} (hfits : Fits l b.context w cs)
    (h : EndsBehind l (b.put w) cs last) : EndsBehind l b (w.source ++ cs) last := by
  obtain ⟨ws, hws, hsplits, hlast, hopeners⟩ := h
  refine ⟨w :: ws, by rw [Word.sources_cons, hws], .cons ?_ ?_, hlast, hopeners⟩
  · rw [hws, List.append_nil]
    exact hfits
  · rw [← State.context_put]
    exact hsplits

/-- Array constants and structured references are no formulas. -/
theorem step_bracket (hl : l.HasPlainSeparator) {c : Char} (hc : c = '{' ∨ c = '}' ∨ c = '[' ∨ c = ']')
    (s : State) (cs : List Char) : ∃ e, step l s c cs = .error e := by
  have hne : c ≠ l.separator := hl.ne_separator (by rcases hc with rfl | rfl | rfl | rfl <;> decide)
  rcases hc with rfl | rfl | rfl | rfl <;> simp [step, isSpace, isSign, hne]

/-- What a step comes to that does not end an operand first: it goes on with the operand, or it takes a
word that fits. -/
inductive Goes (l : Locale) (b : State) (operand : List Char) (c : Char) (cs : List Char) (next : State)
    (n : Nat) : Prop
  | on (more : List Char) (hgathers : Gathers l (operand ++ more)) (hends : NameEnds (operand ++ more) (cs.drop n))
      (hsource : c :: cs = more ++ cs.drop n) (hnext : next = b.extend (operand ++ more))
  | takes (w : Word) (hfits : Fits l b.context w (cs.drop n))
      (hsource : operand ++ c :: cs = w.source ++ cs.drop n) (hnext : next = b.put w)

section Goes

variable {b next : State} {operand cs : List Char} {c : Char} {n : Nat}

/-- An ordinary character is added to the operand. -/
theorem goes_plain (hb : b.IsFresh) (hoperand : Gathers l operand)
    (hgo : isSpecial l c = false ∨ IsExponentSign l operand c)
    (h : step l (b.extend operand) c cs = .ok (next, n)) : Goes l b operand c cs next n := by
  have hstep : step l (b.extend operand) c cs = .ok ((b.extend operand).extend [c], 0) := by
    refine step_extend ?_
    rw [hb.operand_extend]
    exact hgo
  rw [hstep] at h
  cases h
  refine .on [c] (hoperand.char hgo) ?_ rfl (State.extend_extend _ _ _)
  intro hquote
  rw [List.getLast?_append, List.getLast?_singleton, Option.some_or, Option.some.injEq] at hquote
  subst hquote
  rcases hgo with hgo | hgo
  · simp [isSpecial] at hgo
  · exact absurd hgo (not_isExponentSign ⟨by decide, by decide⟩)

/-- A quote begins a text, or goes on with the operand as a quoted name. -/
theorem goes_quote (hl : l.HasPlainSeparator) (hb : b.IsFresh) (hoperand : Gathers l operand)
    (hlast : operand = [] ∨ operand.getLast? = some ':') (hquote : c = '"' ∨ c = '\'')
    (h : step l (b.extend operand) c cs = .ok (next, n)) : Goes l b operand c cs next n := by
  rw [step_quote hl hquote, stepQuote, hb.flushUnlessLast_extend hlast] at h
  split at h
  · cases h
  · next m hm =>
    obtain ⟨hcloses, hhead⟩ := closes_of_quotedLength hm
    rcases hquote with rfl | rfl
    · cases h
      refine .takes ⟨operand, '"' :: cs.take n, .operand, .text⟩ (.text hoperand hlast hcloses hhead) ?_ rfl
      rw [Word.source, List.append_assoc, List.cons_append, List.take_append_drop]
    · cases h
      refine .on ('\'' :: cs.take n) (hoperand.name hlast hcloses) (fun _ => hhead) ?_ (State.extend_extend _ _ _)
      rw [List.cons_append, List.take_append_drop]

/-- A hash begins an error code. -/
theorem goes_hash (hl : l.HasPlainSeparator) (hb : b.IsFresh) (hoperand : Gathers l operand)
    (hlast : operand = [] ∨ operand.getLast? = some '!')
    (h : step l (b.extend operand) '#' cs = .ok (next, n)) : Goes l b operand '#' cs next n := by
  rw [step_error hl, stepErrorCode, hb.flushUnlessLast_extend hlast] at h
  split at h
  · cases h
  · next m hm =>
    obtain ⟨k, rfl⟩ : ∃ k, m = k + 1 := by
      refine Nat.exists_eq_succ_of_ne_zero fun hzero => ?_
      subst hzero
      obtain ⟨kind, hkind⟩ := isErrorCode_of_errorCodeLength hm
      cases kind <;> cases hkind
    have hcode := isErrorCode_of_errorCodeLength hm
    rw [List.take_succ_cons] at hcode
    cases h
    refine .takes ⟨[], operand ++ '#' :: cs.take k, .operand, .error⟩ (.error hoperand hlast hcode) ?_ ?_
    · rw [Nat.add_sub_cancel, Word.source, List.nil_append, List.append_assoc, List.cons_append,
        List.take_append_drop]
    · rw [List.take_succ_cons, hb.pushWithOperand_error]

/-- A parenthesis opens a call behind an operand and a group elsewhere. -/
theorem goes_opening (hl : l.HasPlainSeparator) (hb : b.IsFresh) (hoperand : Gathers l operand)
    (h : step l (b.extend operand) '(' cs = .ok (next, n)) : Goes l b operand '(' cs next n := by
  rw [step_opening hl] at h
  cases h
  by_cases hnil : operand = []
  · subst hnil
    refine .takes ⟨[], ['('], .group, .opening⟩ .group rfl ?_
    rw [hb.extend_nil, if_pos hb.operand, State.pushWithOperand, if_pos hb.operand]
    rfl
  · refine .takes ⟨[], operand ++ ['('], .call, .opening⟩ (.call hoperand hnil) ?_ ?_
    · simp [Word.source]
    · rw [if_neg (hb.operand_extend_ne hnil), hb.pushWithOperand_extend hnil]
      rfl

/-- A blank is taken with the blanks that follow it. -/
theorem goes_blank (hb : b.IsFresh) (hspace : isSpace c = true) (h : step l b c cs = .ok (next, n)) :
    Goes l b [] c cs next n := by
  rw [step_blank hb.operand hspace] at h
  cases h
  have hdrop : cs.drop (cs.takeWhile isSpace).length = cs.dropWhile isSpace :=
    calc
      cs.drop (cs.takeWhile isSpace).length =
          (cs.takeWhile isSpace ++ cs.dropWhile isSpace).drop (cs.takeWhile isSpace).length := by
        rw [List.takeWhile_append_dropWhile]
      _ = cs.dropWhile isSpace := List.drop_left
  refine .takes ⟨[], c :: cs.takeWhile isSpace, .blank, .plain⟩ (.blank hspace ?_ ?_) ?_ rfl
  · exact List.all_eq_true.mp List.all_takeWhile
  · intro d hd
    rw [hdrop] at hd
    have hfirst := List.head?_dropWhile_not isSpace cs
    rw [Option.mem_def.mp hd] at hfirst
    simpa using hfirst
  · rw [hdrop]
    exact congrArg (c :: ·) List.takeWhile_append_dropWhile.symm

/-- An operator is taken with its second character, if it has one. -/
theorem goes_sign (hb : b.IsFresh) (hsign : isSign c = true) (h : step l b c cs = .ok (next, n)) :
    Goes l b [] c cs next n := by
  rw [step_sign hb.operand hsign] at h
  unfold stepSign at h
  rw [State.flush_of_fresh hb.operand] at h
  split at h
  · next d ds =>
    split at h
    · next hpair =>
      cases h
      exact .takes ⟨[], [c, d], .infixSign, .plain⟩ (.pair hpair) rfl rfl
    · next hpair =>
      cases h
      refine .takes ⟨[], [c], b.context.signKind c, .plain⟩ (.sign hsign ?_) rfl rfl
      intro d' hd'
      cases hd'
      exact hpair
  · cases h
    refine .takes ⟨[], [c], b.context.signKind c, .plain⟩ (.sign hsign ?_) rfl rfl
    exact fun d hd => absurd hd (by simp)

/-- A closing parenthesis closes what was opened last. -/
theorem goes_closing (hb : b.IsFresh) (h : step l b ')' cs = .ok (next, n)) : Goes l b [] ')' cs next n := by
  rw [step_closing, State.flush_of_fresh hb.operand] at h
  split at h
  · cases h
  · next hopen =>
    cases h
    obtain ⟨kind, outer, hopeners⟩ := List.exists_cons_of_ne_nil hopen
    have hfits : Fits l b.context ⟨[], [')'], kind, .closing⟩ cs := .close hopeners
    refine .takes _ hfits rfl ?_
    unfold State.put Context.next State.context
    rw [hopeners]
    rfl

/-- A separator stands between the arguments of a call. -/
theorem goes_separator (hl : l.HasPlainSeparator) (hb : b.IsFresh)
    (h : step l b l.separator cs = .ok (next, n)) : Goes l b [] l.separator cs next n := by
  rw [step_separator hl, State.flush_of_fresh hb.operand] at h
  split at h
  · next hopen =>
    cases h
    exact .takes ⟨[], [l.separator], .separator, .argument⟩ (.separator hopen) rfl rfl
  · cases h

/-- A character that ends operands is taken by itself. -/
theorem goes_ending (hl : l.HasPlainSeparator) (hb : b.IsFresh) (hend : endsOperand l.separator c = true)
    (hbrace : c ≠ '}') (h : step l b c cs = .ok (next, n)) : Goes l b [] c cs next n := by
  by_cases hspace : isSpace c = true
  · exact goes_blank hb hspace h
  by_cases hsign : isSign c = true
  · exact goes_sign hb hsign h
  by_cases hclosing : c = ')'
  · subst hclosing
    exact goes_closing hb h
  have hseparator : c = l.separator := by
    simpa [endsOperand, hspace, hsign, hclosing, hbrace] using hend
  subst hseparator
  exact goes_separator hl hb h

end Goes

/-- One step that does not end an operand first goes on with the operand, or finds a word that fits. -/
theorem step_cases (hl : l.HasPlainSeparator) {b : State} (hb : b.IsFresh) {operand : List Char}
    (hoperand : Gathers l operand) {c : Char} {cs : List Char} (hends : NameEnds operand (c :: cs))
    (hcut : operand = [] ∨ ¬Cuts l operand (c :: cs)) {next : State} {n : Nat}
    (h : step l (b.extend operand) c cs = .ok (next, n)) : Goes l b operand c cs next n := by
  by_cases hgo : isSpecial l c = false ∨ IsExponentSign l operand c
  · exact goes_plain hb hoperand hgo h
  rw [not_or, Bool.not_eq_false] at hgo
  obtain ⟨hspecial, hsign⟩ := hgo
  by_cases hquote : c = '"' ∨ c = '\''
  · refine goes_quote hl hb hoperand ?_ hquote h
    refine hcut.imp_right fun hnot => Classical.byContradiction fun hcolon => hnot (Or.inr (Or.inl ?_))
    refine ⟨hquote.imp_right fun hname => ⟨hname, fun hclosed => hends hclosed ?_⟩, hcolon⟩
    rw [hname, List.head?_cons]
  by_cases hhash : c = '#'
  · subst hhash
    refine goes_hash hl hb hoperand ?_ h
    exact hcut.imp_right fun hnot => Classical.byContradiction fun hmark => hnot (Or.inr (Or.inr ⟨rfl, hmark⟩))
  by_cases hopening : c = '('
  · subst hopening
    exact goes_opening hl hb hoperand h
  by_cases hbracket : c = '{' ∨ c = '}' ∨ c = '[' ∨ c = ']'
  · obtain ⟨e, he⟩ := step_bracket hl hbracket (b.extend operand) cs
    rw [he] at h
    cases h
  -- what is left ends an operand, so there is none
  simp only [isSpecial, Bool.or_eq_true, beq_iff_eq] at hspecial
  have hend : endsOperand l.separator c = true := by
    rcases hspecial with ((((((hend | rfl) | rfl) | rfl) | rfl) | rfl) | rfl) | rfl
    · exact hend
    all_goals simp at hquote hhash hopening hbracket
  obtain rfl : operand = [] := hcut.resolve_right fun hnot => hnot (Or.inl ⟨hend, hsign⟩)
  rw [hb.extend_nil] at h
  exact goes_ending hl hb hend (fun hbrace => hbracket (Or.inr (Or.inl hbrace))) h

theorem endsBehind_of_run (hl : l.HasPlainSeparator) {b : State} (hb : b.IsFresh) {operand cs : List Char}
    (hoperand : Gathers l operand) (hends : NameEnds operand cs) {last : State}
    (h : run l (b.extend operand) cs = .ok last) : EndsBehind l b (operand ++ cs) last := by
  by_cases hcut : operand ≠ [] ∧ Cuts l operand cs
  · obtain ⟨hne, hcuts⟩ := hcut
    have hcuts' : Cuts l (b.extend operand).operand.reverse cs := by
      rw [hb.operand_extend]
      exact hcuts
    rw [run_flush hl hcuts', hb.flush_extend hne, ← (b.isFresh_put _).extend_nil] at h
    have hshorter : 0 < operand.length := List.length_pos_iff.mpr hne
    exact EndsBehind.cons (.operand hoperand hne hcuts)
      (endsBehind_of_run hl (b.isFresh_put _) .nil (fun hnone => absurd hnone (by simp)) h)
  cases cs with
  | nil =>
    have hnil : operand = [] := Classical.byContradiction fun hne => hcut ⟨hne, trivial⟩
    subst hnil
    rw [hb.extend_nil, run, State.flush_of_fresh hb.operand] at h
    split at h
    · next hopeners =>
      cases h
      exact ⟨[], rfl, .nil, rfl, hopeners⟩
    · cases h
  | cons c cs =>
    have hcut' : operand = [] ∨ ¬Cuts l operand (c :: cs) :=
      (Classical.em (operand = [])).imp_right fun hne hcuts => hcut ⟨hne, hcuts⟩
    cases hstep : step l (b.extend operand) c cs with
    | error e =>
      rw [run, hstep] at h
      cases h
    | ok result =>
      obtain ⟨next, n⟩ := result
      have hshorter : (cs.drop n).length < (c :: cs).length := by
        rw [List.length_drop, List.length_cons]
        omega
      rw [run_of_step hstep] at h
      cases step_cases hl hb hoperand hends hcut' hstep with
      | on more hmore hends' hcs hnext =>
        rw [hcs, ← List.append_assoc]
        rw [hnext] at h
        exact endsBehind_of_run hl hb hmore hends' h
      | takes w hfits hcs hnext =>
        rw [hcs]
        rw [hnext, ← (b.isFresh_put _).extend_nil] at h
        exact EndsBehind.cons hfits
          (endsBehind_of_run hl (b.isFresh_put w) .nil (fun hnone => absurd hnone (by simp)) h)
termination_by (cs.length, operand.length)

end Lexer

/-- **The tokens of a formula are the words that it splits into**, and no parenthesis stays open. -/
theorem tokenize_eq_ok_iff {l : Locale} (hl : l.HasPlainSeparator) {cs : List Char} {ts : List Token} :
    tokenize l (String.ofList ('=' :: cs)) = .ok ts ↔
      ∃ ws, Word.sources ws = cs ∧ Lexer.Splits l {} ws [] ∧ (Lexer.Context.after {} ws).openers = [] ∧
        ts = Word.tokens 1 ws := by
  have hascii : ¬128 ≤ l.separator.toNat := Nat.not_le.mpr hl.isAscii
  have hfresh : Lexer.State.IsFresh {} := ⟨rfl, rfl⟩
  have htokens : ∀ ws, (Lexer.State.putAll {} ws).tokens.reverse = Word.tokens 1 ws := by
    intro ws
    rw [Lexer.State.tokens_putAll, List.append_nil, List.reverse_reverse]
  have hcontext : ∀ ws, (Lexer.State.putAll {} ws).openers = (Lexer.Context.after {} ws).openers :=
    fun ws => congrArg Lexer.Context.openers (Lexer.State.context_putAll {} ws)
  unfold tokenize
  rw [if_neg hascii, String.toList_ofList]
  dsimp only
  rw [if_pos rfl]
  constructor
  · intro h
    match hrun : Lexer.run l {} cs with
    | .error e =>
      rw [hrun] at h
      cases h
    | .ok last =>
      rw [hrun] at h
      cases h
      rw [← hfresh.extend_nil] at hrun
      obtain ⟨ws, hws, hsplits, rfl, hopeners⟩ :=
        Lexer.endsBehind_of_run hl hfresh .nil (fun hnone => absurd hnone (by simp)) hrun
      exact ⟨ws, hws, hsplits, (hcontext ws).symm.trans hopeners, htokens ws⟩
  · rintro ⟨ws, rfl, hsplits, hopeners, rfl⟩
    have hrun := Lexer.run_putAll hl hfresh hsplits
    rw [List.append_nil, Lexer.run, Lexer.State.flush_of_fresh (hfresh.putAll ws).operand,
      if_pos ((hcontext ws).trans hopeners)] at hrun
    rw [hrun]
    exact congrArg Except.ok (htokens ws)

end Spreadsheet
