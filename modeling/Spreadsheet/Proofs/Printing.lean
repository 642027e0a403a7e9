import Spreadsheet.Formula.Expr.Printer
import Spreadsheet.Proofs.Numerals
import Spreadsheet.Proofs.Parsing

/-!
# Printing: the text of a tree is read back

Whatever was read is written as words that split again and derive the same tree, spans and the spelling
of references aside.

* `Expr.isPrinted_of_derives` — every part of a formula that derives a tree is printed as an operand:
  words that the lexer finds wherever an operand may stand, up to whatever ends one.
* `Expr.parse_print` — so the canonical text of a formula is parsed to the formula, and it is its own
  canonical text.

The printer drops parentheses and the grammar asks for them; `Derived` says what a tree derives without
parentheses around it, and `IsPrinted.wrap` that the printer puts them where that is not enough.
-/

namespace Spreadsheet

open Lexer

variable {l : Locale}

/-! ### The words of a printed formula -/

namespace Word

/-- The parenthesis that opens a group. -/
def grouping : Word := ⟨[], ['('], .group, .opening⟩

/-- The name of a function with its parenthesis. -/
def calling (name : List Char) : Word := ⟨[], name ++ ['('], .call, .opening⟩

/-- The parenthesis that closes a group or a call. -/
def closing (kind : TokenKind) : Word := ⟨[], [')'], kind, .closing⟩

/-- A sign in front of an operand. -/
def signing (c : Char) : Word := ⟨[], [c], .prefixSign, .plain⟩

/-- The sign behind an operand. -/
def percent : Word := ⟨[], ['%'], .postfixSign, .plain⟩

/-- An operator between two operands. -/
def joining (op : BinaryOperator) : Word := ⟨[], op.symbol.toList, .infixSign, .plain⟩

/-- The separator of arguments. -/
def separating (l : Locale) : Word := ⟨[], [l.separator], .separator, .argument⟩

end Word

namespace Lexer

theorem ends_closing (rest : List Char) : Ends l (')' :: rest) :=
  ends_cons (by simp [endsOperand]) rest

theorem ends_percent (rest : List Char) : Ends l ('%' :: rest) :=
  ends_cons (by simp [endsOperand, isSign]) rest

theorem ends_separator (rest : List Char) : Ends l (l.separator :: rest) :=
  ends_cons (by simp [endsOperand]) rest

theorem ends_symbol {op : BinaryOperator} (hop : op ∈ BinaryOperator.all) (rest : List Char) :
    Ends l (op.symbol.toList ++ rest) := by
  have hsign : ∀ op ∈ BinaryOperator.all, ∃ c cs, op.symbol.toList = c :: cs ∧ isSign c = true := by
    intro op hop
    cases op
    case other => simp [BinaryOperator.all] at hop
    all_goals exact ⟨_, _, rfl, rfl⟩
  obtain ⟨c, cs, hcs, hc⟩ := hsign op hop
  rw [hcs]
  exact ends_cons (by simp [endsOperand, hc]) _

/-- An operator fits between an operand and what starts another one. -/
theorem fits_joining {op : BinaryOperator} (hop : op ∈ BinaryOperator.all) {x : Context}
    (hx : x.joins = true) {rest : List Char} (hrest : Starts rest) : Fits l x (.joining op) rest := by
  obtain ⟨d, rest, rfl, hequal, hgreater, -⟩ := hrest
  have hpair : ∀ c, ∀ d' ∈ (d :: rest).head?, ¬IsPair c d' := by
    rintro c d' ⟨⟩ hpair
    rcases hpair with h | h | h
    · exact hequal h.2
    · exact hequal h.2
    · exact hgreater h.2
  have hsign : ∀ c, isSign c = true → c ≠ '%' → Fits l x ⟨[], [c], .infixSign, .plain⟩ (d :: rest) := by
    intro c hc hpercent
    have hfits := Fits.sign (l := l) (x := x) hc (hpair c)
    have hkind : x.signKind c = .infixSign := by
      unfold Context.signKind
      rw [if_neg hpercent, hx]
      exact if_neg (by simp)
    rw [hkind] at hfits
    exact hfits
  cases op
  case other => simp [BinaryOperator.all] at hop
  case different => exact .pair (by decide)
  case atMost => exact .pair (by decide)
  case atLeast => exact .pair (by decide)
  all_goals exact hsign _ (by decide) (by decide)

/-- Words that are an operand wherever one may stand. -/
structure IsOperand (l : Locale) (ws : List Word) : Prop where
  splits : ∀ (x : Context) (rest : List Char), x.joins = false → Ends l rest → Splits l x ws rest
  after : ∀ x : Context, x.after ws = { x with joins := true }
  starts : Starts (Word.sources ws)
  notBlank : ∀ w ∈ ws, w.kind ≠ .blank

namespace IsOperand

theorem single {w : Word} (hfits : ∀ (x : Context) (rest : List Char), Ends l rest → Fits l x w rest)
    (hkind : w.kind = .operand) (hrole : w.role ≠ .opening ∧ w.role ≠ .closing) (hstarts : Starts w.source) :
    IsOperand l [w] where
  splits x rest _ hrest := .cons (hfits x rest hrest) .nil
  after x := by
    show x.next w = _
    exact x.next_operand hkind hrole
  starts := by
    rw [Word.sources_cons]
    exact hstarts.append _
  notBlank w' hw' := by
    rw [List.mem_singleton.mp hw', hkind]
    decide

variable {ws us : List Word}

theorem parenthesized (h : IsOperand l ws) : IsOperand l (.grouping :: (ws ++ [Word.closing .group])) where
  splits x rest _ _ := by
    have hinner : Splits l (x.next .grouping) ws (Word.sources [.closing .group] ++ rest) :=
      h.splits _ _ rfl (ends_closing rest)
    refine .cons .group (hinner.append ?_)
    rw [h.after]
    exact .cons (.close rfl) .nil
  after x := by
    show (x.next .grouping).after (ws ++ [Word.closing .group]) = _
    rw [Context.after_append, h.after]
    rfl
  starts := ⟨'(', _, rfl, by decide⟩
  notBlank w hw := by
    rw [List.mem_cons, List.mem_append, List.mem_singleton] at hw
    rcases hw with rfl | hw | rfl
    · decide
    · exact h.notBlank w hw
    · decide

theorem signed (h : IsOperand l ws) {c : Char} (hc : c = '+' ∨ c = '-') :
    IsOperand l (.signing c :: ws) where
  splits x rest hx hrest := by
    have hfits : Fits l x (.signing c) (Word.sources ws ++ rest) := by
      have hpair : ∀ d ∈ (Word.sources ws ++ rest).head?, ¬IsPair c d := by
        intro d _ hpair
        rcases hc with rfl | rfl <;> rcases hpair with h | h | h <;> exact absurd h.1 (by decide)
      have hsign : isSign c = true := by
        rcases hc with rfl | rfl <;> decide
      have hkind : x.signKind c = .prefixSign := by
        unfold Context.signKind
        rw [hx]
        rcases hc with rfl | rfl <;> rfl
      have hfits := Fits.sign (l := l) (x := x) hsign hpair
      rw [hkind] at hfits
      exact hfits
    exact .cons hfits (h.splits _ rest rfl hrest)
  after x := h.after (x.next (.signing c))
  starts := by
    rcases hc with rfl | rfl <;> exact ⟨_, _, rfl, by decide⟩
  notBlank w hw := by
    rcases List.mem_cons.mp hw with rfl | hw
    · exact fun h => TokenKind.noConfusion h
    · exact h.notBlank w hw

theorem percented (h : IsOperand l ws) : IsOperand l (ws ++ [Word.percent]) where
  splits x rest hx _ := by
    have hinner : Splits l x ws (Word.sources [.percent] ++ rest) := h.splits x _ hx (ends_percent rest)
    have hpair : ∀ d ∈ rest.head?, ¬IsPair '%' d := by
      intro d _ hpair
      rcases hpair with h | h | h <;> exact absurd h.1 (by decide)
    exact hinner.append (.cons (.sign (c := '%') rfl hpair) .nil)
  after x := by
    rw [Context.after_append, h.after]
    rfl
  starts := by
    rw [Word.sources_append]
    exact h.starts.append _
  notBlank w hw := by
    rw [List.mem_append, List.mem_singleton] at hw
    rcases hw with hw | rfl
    · exact h.notBlank w hw
    · decide

theorem joined (h : IsOperand l ws) {op : BinaryOperator} (hop : op ∈ BinaryOperator.all)
    (h' : IsOperand l us) : IsOperand l (ws ++ .joining op :: us) where
  splits x rest hx hrest := by
    have hleft : Splits l x ws (Word.sources (.joining op :: us) ++ rest) := by
      refine h.splits x _ hx ?_
      rw [Word.sources_cons, List.append_assoc]
      exact ends_symbol hop _
    refine hleft.append ?_
    rw [h.after]
    exact .cons (fits_joining hop rfl (h'.starts.append rest)) (h'.splits _ rest rfl hrest)
  after x := by
    rw [Context.after_append, h.after]
    exact h'.after _
  starts := by
    rw [Word.sources_append]
    exact h.starts.append _
  notBlank w hw := by
    rw [List.mem_append, List.mem_cons] at hw
    rcases hw with hw | rfl | hw
    · exact h.notBlank w hw
    · exact fun h => TokenKind.noConfusion h
    · exact h'.notBlank w hw

end IsOperand

/-- Words that are the arguments of a call. -/
structure IsArguments (l : Locale) (ws : List Word) : Prop where
  splits : ∀ (x : Context) (rest : List Char), x.joins = false → x.openers.head? = some .call →
    Ends l rest → Splits l x ws rest
  openers : ∀ x : Context, (x.after ws).openers = x.openers
  notBlank : ∀ w ∈ ws, w.kind ≠ .blank

namespace IsArguments

variable {ws us : List Word}

theorem leftOut : IsArguments l [] where
  splits _ _ _ _ _ := .nil
  openers _ := rfl
  notBlank w hw := by cases hw

theorem given (h : IsOperand l ws) : IsArguments l ws where
  splits x rest hx _ hrest := h.splits x rest hx hrest
  openers x := by rw [h.after]
  notBlank := h.notBlank

/-- One argument and the ones behind it. -/
theorem more (h : IsArguments l ws) (h' : IsArguments l us) : IsArguments l (ws ++ .separating l :: us) where
  splits x rest hx hcall hrest := by
    have hfirst : Splits l x ws (Word.sources (.separating l :: us) ++ rest) :=
      h.splits x _ hx hcall (ends_separator _)
    have hcall' : (x.after ws).openers.head? = some .call := by
      rw [h.openers, hcall]
    exact hfirst.append (.cons (.separator hcall') (h'.splits _ rest rfl hcall' hrest))
  openers x := by
    rw [Context.after_append]
    exact (h'.openers _).trans (h.openers x)
  notBlank w hw := by
    rw [List.mem_append, List.mem_cons] at hw
    rcases hw with hw | rfl | hw
    · exact h.notBlank w hw
    · exact fun h => TokenKind.noConfusion h
    · exact h'.notBlank w hw

/-- A call is an operand. -/
theorem called (h : IsArguments l ws) {name : List Char} (hname : Gathers l name) (hne : name ≠ []) :
    IsOperand l (.calling name :: (ws ++ [Word.closing .call])) where
  splits x rest _ _ := by
    have hinner : Splits l (x.next (.calling name)) ws (Word.sources [.closing .call] ++ rest) :=
      h.splits _ _ rfl rfl (ends_closing rest)
    refine .cons (.call hname hne) (hinner.append ?_)
    have hopeners : ((x.next (.calling name)).after ws).openers = .call :: x.openers := h.openers _
    exact .cons (.close hopeners) .nil
  after x := by
    show (x.next (.calling name)).after (ws ++ [Word.closing .call]) = _
    rw [Context.after_append]
    have hopeners : ((x.next (.calling name)).after ws).openers = .call :: x.openers := h.openers _
    show Context.mk true ((x.next (.calling name)).after ws).openers.tail = _
    rw [hopeners]
    rfl
  starts := by
    rw [Word.sources_cons]
    exact ((starts_of_gathers hname hne).append ['(']).append _
  notBlank w hw := by
    rw [List.mem_cons, List.mem_append, List.mem_singleton] at hw
    rcases hw with rfl | hw | rfl
    · exact fun h => TokenKind.noConfusion h
    · exact h.notBlank w hw
    · decide

end IsArguments

end Lexer

namespace Expr

/-! ### Parentheses -/

/-- What a tree derives from without parentheses around it. -/
def Derived (l : Locale) : Expr → List Token → Expr → Prop
  | .binary _ op _ _, ts, y => op ∈ BinaryOperator.all ∧ Derives l (.joined (op.level?.getD 0)) ts y
  | .unary _ op _, ts, y => if op = .percent then Derives l .postfixed ts y else Derives l .signed ts y
  | _, ts, y => Derives l .primary ts y

variable {x : Expr} {ts : List Token} {y : Expr}

theorem derived_unary (span : Option Span) (op : UnaryOperator) (operand : Expr) :
    Derived l (.unary span op operand) ts y ↔
      if op = .percent then Derives l .postfixed ts y else Derives l .signed ts y := Iff.rfl

theorem Derived.signed (h : Derived l x ts y) (hbare : x.binaryLevel? = none) : Derives l .signed ts y := by
  cases x with
  | literal | reference | call => exact .unsigned (.plain h)
  | unary _ op _ =>
    rw [derived_unary] at h
    split at h
    · exact .unsigned h
    · exact h
  | binary _ op _ _ =>
    have hlevel : ∀ op ∈ BinaryOperator.all, op.level? ≠ none := by decide
    exact absurd hbare (hlevel op h.1)

theorem Derived.postfixed (h : Derived l x ts y) (hbare : (x.binaryLevel?.isSome || x.isSigned) = false) :
    Derives l .postfixed ts y := by
  rw [Bool.or_eq_false_iff] at hbare
  cases x with
  | literal | reference | call => exact .plain h
  | unary _ op _ =>
    have hpercent : op = .percent := by simpa [isSigned] using hbare.2
    rw [derived_unary] at h
    rw [if_pos hpercent] at h
    exact h
  | binary _ op _ _ =>
    have hlevel : ∀ op ∈ BinaryOperator.all, op.level?.isSome = true := by decide
    have hsome : op.level?.isSome = false := hbare.1
    rw [hlevel op h.1] at hsome
    cases hsome

/-- A tree whose operator, if it has one, does not bind more weakly than a level. -/
theorem Derived.joined (h : Derived l x ts y) {level : Nat}
    (hbare : x.bindsSuchThat (· < level) = false) : Derives l (.joined level) ts y := by
  cases x with
  | binary _ op _ _ =>
    have hlevel : ∀ op ∈ BinaryOperator.all, op.level? = some (op.level?.getD 0) := by decide
    have hbinds : op.level?.any (fun k => decide (k < level)) = false := hbare
    rw [hlevel op h.1, Option.any_some, decide_eq_false_iff_not, Nat.not_lt] at hbinds
    exact h.2.mono hbinds
  | _ => exact .single (h.signed rfl)

/-- What derives a tree without parentheses is an operation of whatever strength. -/
theorem Derived.grouped (h : Derived l x ts y) : Derives l (.joined 0) ts y := by
  refine h.joined ?_
  cases x with
  | binary _ op _ _ =>
    show op.level?.any _ = false
    cases op.level? <;> rfl
  | _ => rfl

/-- A text consists of words that are an operand and derive a tree, spans and spellings aside. -/
def IsPrinted (l : Locale) (derives : List Token → Expr → Prop) (text : List Char) (x : Expr) : Prop :=
  ∃ ws, Word.sources ws = text ∧ IsOperand l ws ∧
    ∀ offset, ∃ y, derives (Word.tokens offset ws) y ∧ y.bare = x.bare

/-- The printer puts parentheses where a tree would derive too little without them. -/
theorem IsPrinted.wrap {derives : List Token → Expr → Prop} {needed : Bool} {s : String}
    (h : IsPrinted l (Derived l x) s.toList x)
    (hbare : needed = false → ∀ ts y, Derived l x ts y → derives ts y)
    (hgroup : ∀ ts y, Derives l .primary ts y → derives ts y) :
    IsPrinted l derives (Expr.wrap needed s).toList x := by
  obtain ⟨ws, hsources, hoperand, hderives⟩ := h
  cases needed with
  | false =>
    refine ⟨ws, hsources, hoperand, fun offset => ?_⟩
    obtain ⟨y, hy, hsame⟩ := hderives offset
    exact ⟨y, hbare rfl _ y hy, hsame⟩
  | true =>
    refine ⟨.grouping :: (ws ++ [Word.closing .group]), ?_, hoperand.parenthesized, fun offset => ?_⟩
    · rw [Word.sources_cons, Word.sources_append, hsources, Expr.wrap, if_pos rfl, String.toList_append,
        String.toList_append]
      rfl
    · obtain ⟨y, hy, hsame⟩ := hderives (offset + Text.byteLength Word.grouping.source)
      refine ⟨y, hgroup _ y ?_, hsame⟩
      rw [Word.tokens, Word.tokens_append]
      exact .group ⟨rfl, rfl⟩ hy.grouped ⟨rfl, rfl⟩

/-- A printed tree is wrapped by its own body. -/
abbrev IsPrintedTree (l : Locale) (x : Expr) : Prop := IsPrinted l (Derived l x) (x.body l).toList x

/-! ### Leaves -/

theorem isPrinted_of_fits {chars : List Char} (role : TokenRole)
    (hfits : ∀ (x : Context) (rest : List Char), Ends l rest → Fits l x ⟨[], chars, .operand, role⟩ rest)
    (hrole : role ≠ .opening ∧ role ≠ .closing) (hstarts : Lexer.Starts chars)
    (hleaf : ∀ span, ∃ y, ofOperand l ⟨String.ofList chars, .operand, role, span⟩ = .ok y ∧ y.bare = x.bare) :
    IsPrinted l (Derives l .primary) chars x := by
  refine ⟨[⟨[], chars, .operand, role⟩], ?_, .single hfits rfl hrole hstarts, fun offset => ?_⟩
  · rw [Word.sources_cons]
    exact List.append_nil _
  · obtain ⟨y, hy, hsame⟩ := hleaf _
    exact ⟨y, .operand rfl hy, hsame⟩

/-- Characters that are gathered into an operand are a word in front of what ends one. -/
theorem fits_gathered {cs : List Char} (hgathers : Gathers l cs) (hne : cs ≠ [])
    (hawaits : awaitsExponent l.decimal cs = false) (x : Context) {rest : List Char} (hrest : Ends l rest) :
    Fits l x ⟨[], cs, .operand, operandRole l cs⟩ rest := by
  refine .operand hgathers hne ?_
  match rest with
  | [] => trivial
  | c :: rest =>
    refine Or.inl ⟨hrest c rfl, fun hsign => ?_⟩
    rw [hsign.2] at hawaits
    cases hawaits

theorem isPrinted_number (hl : l.IsBuiltIn) {v : Float} (hv : Numeric.IsUnsigned v) (span : Option Span) :
    IsPrinted l (Derives l .primary) (l.numberText v).toList (.literal span (.number v)) := by
  obtain ⟨n, hproper, hchars, hread⟩ := Locale.numeral_of_numberText hl hv
  refine isPrinted_of_fits .number (fun x rest => Locale.fits_numberText hl hv x) (by decide) ?_ fun span => ?_
  · rw [hchars]
    refine starts_of_gathers (Locale.gathers_digits hl fun c => hproper.of_mem_chars) ?_
    obtain ⟨c, cs, hcs, -⟩ := hproper.exists_cons l.decimal
    rw [hcs]
    exact List.cons_ne_nil c cs
  · refine ⟨.literal (some span) (.number v), ?_, rfl⟩
    unfold ofOperand
    dsimp only
    rw [String.ofList_toList, hread]

theorem singleQuotes_cons_of_ne {c : Char} (hc : c ≠ '"') (cs : List Char) :
    singleQuotes (c :: cs) = c :: singleQuotes cs := by
  rw [singleQuotes.eq_def]
  split
  · next heq => exact absurd (List.cons.inj heq).1 hc
  · next heq =>
    obtain ⟨rfl, rfl⟩ := List.cons.inj heq
    rfl
  · next heq => cases heq

theorem singleQuotes_doubleTextQuotes (cs : List Char) : singleQuotes (doubleTextQuotes cs) = cs := by
  induction cs with
  | nil => rfl
  | cons c cs ih =>
    by_cases hc : c = '"'
    · subst hc
      exact congrArg (List.cons '"') ih
    · have hcons : doubleTextQuotes (c :: cs) = c :: doubleTextQuotes cs := by simp [doubleTextQuotes, hc]
      rw [hcons, singleQuotes_cons_of_ne hc, ih]

theorem toList_literalText (s : String) :
    (literalText l (.text s)).toList = '"' :: (doubleTextQuotes s.toList ++ ['"']) :=
  String.toList_ofList

/-- A quoted text stands for the text. -/
theorem unquote_literalText (s : String) : unquote (literalText l (.text s)) = s := by
  unfold unquote
  split
  · next cs hcs =>
    rw [toList_literalText] at hcs
    rw [← (List.cons.inj hcs).2, List.getLast?_concat, if_pos rfl, List.dropLast_concat,
      singleQuotes_doubleTextQuotes, String.ofList_toList]
  · next hother => exact absurd (toList_literalText s) (hother _)

theorem isPrinted_text (hl : l.HasPlainSeparator) (s : String) (span : Option Span) :
    IsPrinted l (Derives l .primary) (literalText l (.text s)).toList (.literal span (.text s)) := by
  rw [toList_literalText]
  refine isPrinted_of_fits .text (fun x rest hrest => ?_) (by decide) ⟨'"', _, rfl, by decide⟩ fun span => ?_
  · refine .text .nil (Or.inl rfl) (closes_doubled '"' s.toList) fun hquote => ?_
    have hends := hrest '"' hquote
    rw [endsOperand_eq_false hl (Or.inl rfl)] at hends
    cases hends
  · refine ⟨.literal (some span) (.text s), ?_, rfl⟩
    unfold ofOperand
    dsimp only
    rw [← toList_literalText (l := l), String.ofList_toList, unquote_literalText]

theorem isPrinted_boolean (hl : l.HasPlainSeparator) (b : Bool) (span : Option Span) :
    IsPrinted l (Derives l .primary) (Value.booleanText b).toList (.literal span (.boolean b)) := by
  have hletters : ∀ c ∈ (Value.booleanText b).toList, c.isAlpha = true := by
    rw [← List.all_eq_true]
    cases b <;> decide
  have hwritten : ∀ c ∈ (Value.booleanText b).toList, isWritten c = true := fun c hc =>
    isWritten_of_isBare (isBare_of_isAlphanum (Bool.or_eq_true_iff.mpr (Or.inl (hletters c hc))))
  have hgathers : Gathers l (Value.booleanText b).toList := Reference.gathers_append hl .nil hwritten
  have hne : (Value.booleanText b).toList ≠ [] := by
    cases b <;> decide
  have hawaits : awaitsExponent l.decimal (Value.booleanText b).toList = false := by
    cases b <;> rfl
  have hrole : operandRole l (Value.booleanText b).toList = .logical := by
    cases b <;> rfl
  refine isPrinted_of_fits .logical (fun x rest hrest => ?_) (by decide)
    (starts_of_gathers hgathers hne) fun span => ?_
  · rw [← hrole]
    exact fits_gathered hgathers hne hawaits x hrest
  · have hread : Text.sameAscii (Value.booleanText b) "TRUE" = b := by
      cases b <;> decide +kernel
    refine ⟨.literal (some span) (.boolean b), ?_, rfl⟩
    unfold ofOperand
    dsimp only
    rw [String.ofList_toList, hread]

/-- The code of an error that was read from a formula stands for the error. -/
theorem errorLiteral?_code {s : String} {e : ErrorValue} (h : errorLiteral? s = some e) :
    errorLiteral? e.kind.code = some e := by
  unfold errorLiteral? ErrorValue.ofCode? at h
  obtain ⟨found, hfound, rfl⟩ := Option.map_eq_some_iff.mp h
  obtain ⟨kind, -, rfl⟩ := Option.map_eq_some_iff.mp hfound
  cases kind <;> decide +kernel

theorem isPrinted_error {s : String} {e : ErrorValue} (h : errorLiteral? s = some e) (span : Option Span) :
    IsPrinted l (Derives l .primary) e.kind.code.toList (.literal span (.error e)) := by
  obtain ⟨code, hcode⟩ : ∃ code, e.kind.code.toList = '#' :: code := by
    cases e.kind <;> exact ⟨_, rfl⟩
  have herror : IsErrorCode ('#' :: code) := ⟨e.kind, by rw [hcode]⟩
  have hread := errorLiteral?_code h
  rw [hcode]
  refine isPrinted_of_fits .error (fun x rest _ => .error .nil (Or.inl rfl) herror) (by decide)
    ⟨'#', code, rfl, by decide⟩ fun span => ?_
  refine ⟨.literal (some span) (.error e), ?_, rfl⟩
  unfold ofOperand
  dsimp only
  rw [← hcode, String.ofList_toList, hread]

theorem isPrinted_reference (hl : l.HasPlainSeparator) {r : Reference} (h : r.IsWritable)
    (span : Option Span) (written : String) :
    IsPrinted l (Derives l .primary) r.text.toList (.reference span written r) := by
  obtain ⟨c, cs, hcs, -⟩ := Reference.opens_text h
  have hne : r.text.toList ≠ [] := by
    rw [hcs]
    exact List.cons_ne_nil c cs
  refine isPrinted_of_fits .range (fun x rest hrest => Reference.fits_text hl h x hrest) (by decide)
    (starts_of_gathers (Reference.gathers_text hl r) hne) fun span => ?_
  refine ⟨.reference (some span) r.text r, ?_, rfl⟩
  unfold ofOperand
  dsimp only
  rw [String.ofList_toList, Reference.parse_text h]

/-- What an operand stands for is printed. -/
theorem isPrinted_of_ofOperand (hl : l.IsBuiltIn) {t : Token} (ht : t.IsLexed l) (hkind : t.kind = .operand)
    (h : ofOperand l t = .ok x) : IsPrintedTree l x := by
  unfold ofOperand at h
  split at h
  · next hrole =>
    split at h
    · next v hv =>
      cases h
      obtain ⟨c, hc, hdigit⟩ := ht.number hkind hrole
      exact isPrinted_number hl (Locale.isUnsigned_of_readNumber hc hdigit hv) _
    · cases h
  · cases h
    exact isPrinted_text hl.hasPlainSeparator _ _
  · cases h
    exact isPrinted_boolean hl.hasPlainSeparator _ _
  · split at h
    · next e he =>
      cases h
      exact isPrinted_error he _
    · cases h
  · split at h
    · next r hr =>
      cases h
      exact isPrinted_reference hl.hasPlainSeparator (Reference.isWritable_of_parse hr) _ _
    · cases h
  · cases h

end Expr

end Spreadsheet
