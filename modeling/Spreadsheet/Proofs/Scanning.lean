import Spreadsheet.Proofs.Lettering

/-!
# Scanning: the lexer, byte by byte

The lexer takes characters. Here it takes bytes, by offsets into the text: `scan?` looks at a byte, sometimes at the
one before it or at a few behind it, moves on and cuts tokens out of the text. It has no answer if it asks for a byte
that the text does not have, cuts outside of the text or inside a character, or does not move on.

Every rule of the lexer that looks at several characters has the same answer by bytes.

* `Lexer.closing?_eq` — where a quoted text ends.
* `Lexer.awaitsExponent?_eq` — whether a sign belongs to the number in front of it.
* `Lexer.findCode?_eq` — which error code stands at an offset.
* `Lexer.isLongSign?_eq` — whether an operator takes two characters.
-/

namespace Spreadsheet.Lexer

open Text Grid

/-! ### Walking over bytes -/

/-- Where the scanner stands: the offset of the next byte, the bytes gathered for an operand from `start` up to `stop`,
the parentheses that are open (innermost first), and the tokens (last one first). -/
structure Cursor where
  offset : Nat
  start : Nat
  stop : Nat
  openers : List TokenKind
  tokens : List Token

namespace Cursor

/-- Where a token begins that takes the gathered bytes with it. -/
def first (c : Cursor) : Nat := if c.start < c.stop then c.start else c.offset

/-- Gathers the bytes up to an offset. -/
def gather (c : Cursor) (stop : Nat) : Cursor := { c with offset := stop, start := c.first, stop := stop }

/-- Cuts a token out of the text and goes on at an offset, with nothing gathered. -/
def cut? (c : Cursor) (text : String) (kind : TokenKind) (role : String → TokenRole) (start stop next : Nat) :
    Option Cursor :=
  (slice? text start stop).map fun piece =>
    { c with
      offset := next
      start := next
      stop := next
      tokens := ⟨piece, kind, role piece, ⟨start, stop⟩⟩ :: c.tokens }

/-- Cuts a token out of the text and goes on behind it. -/
def put? (c : Cursor) (text : String) (kind : TokenKind) (role : String → TokenRole) (start stop : Nat) : Option Cursor :=
  c.cut? text kind role start stop stop

/-- Ends the operand, if there is one, without going on in the text. -/
def save? (l : Locale) (text : String) (c : Cursor) : Option Cursor :=
  if c.start < c.stop then c.cut? text .operand (fun piece => operandRole l piece.toList) c.start c.stop c.offset
  else some c

/-- Ends the operand unless its last byte is the given character. -/
def saveUnlessLast? (l : Locale) (text : String) (c : Cursor) (last : Char) : Option Cursor :=
  if c.start < c.stop then
    (byte? text (c.stop - 1)).bind fun x => if isAsciiOf (· == last) x then some c else c.save? l text
  else some c

end Cursor

/-- Digits with at most one decimal mark, which must be ASCII. -/
def isMantissaOf (mark : Char) : (seen : Bool) → List UInt8 → Bool
  | _, [] => true
  | seen, x :: xs =>
    if isAsciiOf Char.isDigit x then isMantissaOf mark seen xs
    else !seen && mark.toNat < 128 && isAsciiOf (· == mark) x && isMantissaOf mark true xs

/-- Whether bytes are the mantissa of a number with its exponent letter. -/
def awaitsExponentOf? (mark : Char) (xs : List UInt8) : Option Bool :=
  if xs.length < 2 then some false
  else xs[xs.length - 1]?.bind fun last =>
    if !isAsciiOf (fun c => c == 'E' || c == 'e') last then some false
    else xs[0]?.bind fun first =>
      if !isAsciiOf Char.isDigit first then some false
      else (part? xs 1 (xs.length - 1)).map (isMantissaOf mark false)

/-- Whether the bytes of an operand are the mantissa of a number with its exponent letter. -/
def awaitsExponent? (mark : Char) (text : String) (start stop : Nat) : Option Bool :=
  (part? (bytes text) start stop).bind (awaitsExponentOf? mark)

/-- Whether a byte is a sign that belongs to the number before it. -/
def isExponentSign? (l : Locale) (text : String) (c : Cursor) (x : UInt8) : Option Bool :=
  if isAsciiOf (fun ch => ch == '+' || ch == '-') x && decide (c.start < c.stop) then
    awaitsExponent? l.decimal text c.start c.stop
  else some false

/-- The byte behind the quote that closes a text, of which the inside begins at an offset; a doubled quote does not
close it. An error is the end of the text, reached without such a quote. -/
def closing? (text : String) (quote : Char) (i : Nat) : Option (Except Nat Nat) :=
  if i < text.utf8ByteSize then
    match byte? text i with
    | none => none
    | some x =>
      if isAsciiOf (· == quote) x then
        if i + 1 < text.utf8ByteSize then
          match byte? text (i + 1) with
          | none => none
          | some y => if isAsciiOf (· == quote) y then closing? text quote (i + 2) else some (.ok (i + 1))
        else some (.ok (i + 1))
      else closing? text quote (i + 1)
  else some (.error i)
termination_by text.utf8ByteSize - i

/-- Takes a quoted text or name. -/
def scanQuote? (l : Locale) (text : String) (c : Cursor) (quote : Char) : Option (Except LexError Cursor) :=
  (c.saveUnlessLast? l text ':').bind fun c =>
    (closing? text quote (c.offset + 1)).bind fun
      | .error stop => some (.error (.unclosedQuote stop))
      | .ok stop =>
        if quote = '"' then
          (c.put? text .operand (fun piece => operandRole l piece.toList) c.offset stop).map .ok
        else some (.ok (c.gather stop))

/-- The lower-case letter of a byte that is a capital one; any other byte as it is. -/
def foldByte (x : UInt8) : UInt8 := if isAsciiOf Char.isUpper x then x + 32 else x

/-- The length of the first of some error codes that stands at an offset, the case of ASCII letters aside. -/
def findCode? (text : String) (offset : Nat) : List ErrorKind → Option (Option Nat)
  | [] => some none
  | kind :: kinds =>
    let code := bytes kind.code
    if offset + code.length ≤ text.utf8ByteSize then
      (part? (bytes text) offset (offset + code.length)).bind fun xs =>
        if xs.map foldByte = code.map foldByte then some (some code.length) else findCode? text offset kinds
    else findCode? text offset kinds

/-- Takes an error code. -/
def scanErrorCode? (l : Locale) (text : String) (c : Cursor) : Option (Except LexError Cursor) :=
  (c.saveUnlessLast? l text '!').bind fun c =>
    (findCode? text c.offset ErrorKind.all).bind fun
      | none => some (.error (.unknownErrorCode c.offset))
      | some n => (c.put? text .operand (fun _ => .error) c.first (c.offset + n)).map .ok

/-- Takes blanks. -/
def scanBlank? (text : String) (c : Cursor) : Option (Except LexError Cursor) :=
  (skipWhile? text isSpace c.offset).bind fun stop => (c.put? text .blank (fun _ => .plain) c.offset stop).map .ok

/-- The bytes of the operators of two characters. -/
def longSigns : List (List UInt8) := [bytes ">=", bytes "<=", bytes "<>"]

/-- Whether an operator of two characters stands at an offset. -/
def isLongSign? (text : String) (offset : Nat) : Option Bool :=
  if offset + 1 < text.utf8ByteSize then
    (part? (bytes text) offset (offset + 2)).map fun xs => longSigns.contains xs
  else some false

/-- The kind of an operator of one character. -/
def signKindOf (c : Cursor) (x : UInt8) : TokenKind :=
  if isAsciiOf (· == '%') x then .postfixSign
  else if isAsciiOf (fun ch => ch == '+' || ch == '-') x &&
      !(c.tokens.find? fun t => t.kind != .blank).any Token.endsOperand then .prefixSign
  else .infixSign

/-- Takes an operator of one or two characters. -/
def scanSign? (text : String) (c : Cursor) (x : UInt8) : Option (Except LexError Cursor) :=
  (isLongSign? text c.offset).bind fun long =>
    if long then (c.put? text .infixSign (fun _ => .plain) c.offset (c.offset + 2)).map .ok
    else (c.put? text (signKindOf c x) (fun _ => .plain) c.offset (c.offset + 1)).map .ok

/-- Opens a group, or a call of the gathered name. -/
def scanOpening? (text : String) (c : Cursor) : Option (Except LexError Cursor) :=
  let kind : TokenKind := if c.start < c.stop then .call else .group
  (c.put? text kind (fun _ => .opening) c.first (c.offset + 1)).map fun next =>
    .ok { next with openers := kind :: c.openers }

/-- Closes the innermost parenthesis. -/
def scanClosing? (text : String) (c : Cursor) : Option (Except LexError Cursor) :=
  match c.openers with
  | [] => some (.error (.unopenedParenthesis c.offset))
  | kind :: outer =>
    (c.put? text kind (fun _ => .closing) c.offset (c.offset + 1)).map fun next => .ok { next with openers := outer }

/-- Takes an argument separator. -/
def scanSeparator? (l : Locale) (text : String) (c : Cursor) : Option (Except LexError Cursor) :=
  if c.openers.head? = some .call then (c.put? text .separator (fun _ => .argument) c.offset (c.offset + 1)).map .ok
  else some (.error (.separatorOutsideCall l.separator c.offset))

/-- Takes the bytes that begin with a given one, the operand being ended where this byte ends it. -/
def scanByte? (l : Locale) (text : String) (c : Cursor) (x : UInt8) : Option (Except LexError Cursor) :=
  if isAsciiOf (· == '"') x then scanQuote? l text c '"'
  else if isAsciiOf (· == '\'') x then scanQuote? l text c '\''
  else if isAsciiOf (· == '#') x then scanErrorCode? l text c
  else if isAsciiOf isSpace x then scanBlank? text c
  else if isAsciiOf isSign x then scanSign? text c x
  else if isAsciiOf (· == '(') x then scanOpening? text c
  else if isAsciiOf (· == ')') x then scanClosing? text c
  else if isAsciiOf (· == l.separator) x then scanSeparator? l text c
  else if isAsciiOf (fun ch => ch == '{' || ch == '}') x then some (.error (.arrayConstant c.offset))
  else if isAsciiOf (fun ch => ch == '[' || ch == ']') x then some (.error (.structuredReference c.offset))
  else some (.ok (c.gather (c.offset + 1)))

/-- Takes one byte and some of those behind it. -/
def scanStep? (l : Locale) (text : String) (c : Cursor) : Option (Except LexError Cursor) :=
  (byte? text c.offset).bind fun x =>
    (isExponentSign? l text c x).bind fun isExponentSign =>
      if isExponentSign then some (.ok (c.gather (c.offset + 1)))
      else (if isAsciiOf (endsOperand l.separator) x then c.save? l text else some c).bind fun c => scanByte? l text c x

/-- Walks to the end of the text. A step that does not move on has no answer. -/
def scan? (l : Locale) (text : String) (c : Cursor) : Option (Except LexError (List Token)) :=
  if c.offset < text.utf8ByteSize then
    match scanStep? l text c with
    | none => none
    | some (.error e) => some (.error e)
    | some (.ok next) => if c.offset < next.offset then scan? l text next else none
  else
    (c.save? l text).map fun c =>
      if c.openers = [] then .ok c.tokens.reverse else .error (.unclosedParenthesis c.offset)
termination_by text.utf8ByteSize - c.offset

/-- The tokens of a text, byte by byte. -/
def tokenizeBytes? (l : Locale) (text : String) : Option (Except LexError (List Token)) :=
  if 128 ≤ l.separator.toNat then some (.error (.separatorNotAscii l.separator))
  else if text.utf8ByteSize = 0 then some (.ok [])
  else (byte? text 0).bind fun x =>
    if isAsciiOf (· == '=') x then scan? l text ⟨1, 1, 1, [], []⟩
    else some (.ok [⟨text, .literal, .plain, ⟨0, text.utf8ByteSize⟩⟩])

/-! ### Single bytes and runs of them -/

theorem isAscii_beq {d : Char} (h : d.toNat < 128) : IsAscii (· == d) := by
  intro c hc
  rw [beq_iff_eq.mp hc]
  exact h

section Text

variable {text : String} {a cs : List Char} {quote : Char}

/-- The last byte of a character is found before what follows it. -/
theorem byte?_last {c : Char} (hs : text.toList = a ++ c :: cs) :
    ∃ x ∈ String.utf8EncodeChar c, byte? text (byteLength (a ++ [c]) - 1) = some x := by
  have hpos := c.utf8Size_pos
  have hlast : byteLength (a ++ [c]) - 1 = byteLength a + (c.utf8Size - 1) := by
    rw [byteLength_append]
    exact Nat.add_sub_assoc hpos _
  rw [hlast]
  exact byte?_of_split hs (by omega)

theorem closing?_of_byte {i : Nat} {x : UInt8} (hi : i < text.utf8ByteSize) (hbyte : byte? text i = some x)
    (hx : isAsciiOf (· == quote) x = false) : closing? text quote i = closing? text quote (i + 1) := by
  rw [closing?, if_pos hi, hbyte]
  dsimp only
  rw [if_neg (Bool.eq_false_iff.mp hx)]

theorem closing?_end (hs : text.toList = a) : closing? text quote (byteLength a) = some (.error text.utf8ByteSize) := by
  rw [closing?, ← hs, ← utf8ByteSize_eq, if_neg (Nat.lt_irrefl _)]

theorem closing?_over {c : Char} (hquote : quote.toNat < 128) (hs : text.toList = a ++ c :: cs) (hc : c ≠ quote) :
    closing? text quote (byteLength a) = closing? text quote (byteLength (a ++ [c])) :=
  walk_over hs fun _ _ hk _ hx hbyte =>
    closing?_of_byte hk hbyte
      ((isAsciiOf_of_mem_encode (isAscii_beq hquote) hx).trans (beq_eq_false_iff_ne.mpr hc))

/-- The byte of an ASCII character, and the place behind it. -/
theorem isAsciiOf_self {c : Char} (hc : c.toNat < 128) (hs : text.toList = a ++ c :: cs) :
    (∃ x, byte? text (byteLength a) = some x ∧ isAsciiOf (· == c) x = true) ∧
      byteLength (a ++ [c]) = byteLength a + 1 := by
  obtain ⟨x, hx, hbyte⟩ := byte?_head hs
  refine ⟨⟨x, hbyte, (isAsciiOf_of_mem_encode (isAscii_beq hc) hx).trans (beq_self_eq_true c)⟩, ?_⟩
  rw [byteLength_append]
  exact congrArg (byteLength a + ·) (byteLength_singleton hc)

/-- The quote that closes a text is found byte by byte. -/
theorem closing?_eq (hquote : quote.toNat < 128) (hs : text.toList = a ++ cs) :
    closing? text quote (byteLength a) = some ((quotedLength quote cs).elim (.error text.utf8ByteSize)
      fun n => .ok (byteLength a + byteLength (cs.take n))) := by
  induction cs using quotedLength.induct quote generalizing a with
  | case1 => exact closing?_end (hs.trans (List.append_nil a))
  | case2 =>
    obtain ⟨⟨x, hbyte, hx⟩, hnext⟩ := isAsciiOf_self hquote hs
    have hsize : text.utf8ByteSize = byteLength a + 1 := by rw [utf8ByteSize_eq, hs, hnext]
    rw [closing?, if_pos (lt_size_of_split hs), hbyte]
    dsimp only
    rw [if_pos hx, if_neg (by omega), quotedLength, if_pos rfl, ← hnext, byteLength_append]
    rfl
  | case3 c hc =>
    rw [closing?_over hquote hs hc, closing?_end hs, quotedLength, if_neg hc]
    rfl
  | case4 cs ih =>
    have hs' : text.toList = (a ++ [quote]) ++ quote :: cs := hs.trans (List.append_cons _ _ _)
    obtain ⟨⟨x, hbyte, hx⟩, hnext⟩ := isAsciiOf_self hquote hs
    obtain ⟨⟨y, hbyte', hy⟩, hnext'⟩ := isAsciiOf_self hquote hs'
    have hlt := lt_size_of_split hs'
    rw [hnext] at hbyte' hlt
    have hih := ih (hs'.trans (List.append_cons _ _ _))
    rw [hnext', hnext] at hih
    rw [closing?, if_pos (lt_size_of_split hs), hbyte]
    dsimp only
    rw [if_pos hx, if_pos hlt, hbyte']
    dsimp only
    rw [if_pos hy, hih, quotedLength, if_pos rfl, if_pos rfl]
    cases quotedLength quote cs with
    | none => rfl
    | some n =>
      refine congrArg (fun stop => some (Except.ok stop)) ?_
      rw [List.take_succ_cons, List.take_succ_cons, byteLength, byteLength, (encode_ascii hquote).1]
      omega
  | case5 d cs hd =>
    have hs' : text.toList = (a ++ [quote]) ++ d :: cs := hs.trans (List.append_cons _ _ _)
    obtain ⟨⟨x, hbyte, hx⟩, hnext⟩ := isAsciiOf_self hquote hs
    obtain ⟨y, hy, hbyte'⟩ := byte?_head hs'
    have hlt := lt_size_of_split hs'
    rw [hnext] at hbyte' hlt
    have hy' := (isAsciiOf_of_mem_encode (isAscii_beq hquote) hy).trans (beq_eq_false_iff_ne.mpr hd)
    rw [closing?, if_pos (lt_size_of_split hs), hbyte]
    dsimp only
    rw [if_pos hx, if_pos hlt, hbyte']
    dsimp only
    rw [if_neg (Bool.eq_false_iff.mp hy'), quotedLength, if_pos rfl, if_neg hd, ← hnext, byteLength_append]
    rfl
  | case6 c d cs hc ih =>
    rw [closing?_over hquote hs hc, ih (hs.trans (List.append_cons _ _ _)), quotedLength, if_neg hc]
    cases quotedLength quote (d :: cs) with
    | none => rfl
    | some n =>
      refine congrArg (fun stop => some (Except.ok stop)) ?_
      rw [List.take_succ_cons, byteLength, byteLength_append, Nat.add_assoc]
      rfl

/-- Digits with a decimal mark are the same by bytes. -/
theorem isMantissaOf_eq (mark : Char) (cs : List Char) (seen : Bool) :
    isMantissaOf mark seen (encode cs) = isMantissa mark seen cs := by
  induction cs generalizing seen with
  | nil => rfl
  | cons c cs ih =>
    rcases Nat.lt_or_ge c.toNat 128 with hc | hc
    · rw [encode_cons, (encode_ascii hc).2.1, List.singleton_append, isMantissaOf, isMantissa, isAsciiOf_ascii hc,
        isAsciiOf_ascii hc, ih, ih]
    · obtain ⟨x, xs, hx, hbytes⟩ := exists_encode_cons c cs
      have hdigit : c.isDigit = false := Bool.eq_false_iff.mpr fun h => absurd (isAscii_isDigit c h) (Nat.not_lt.mpr hc)
      have hbeyond : ∀ p, isAsciiOf p x = false := fun p => isAsciiOf_beyond (le_of_mem_encode hc hx)
      rw [hbytes, isMantissaOf, isMantissa, hbeyond, hbeyond, hdigit, Bool.and_false, Bool.false_and]
      by_cases hmark : mark.toNat < 128
      · have hne : c ≠ mark := fun h => absurd (h ▸ hmark) (Nat.not_lt.mpr hc)
        rw [beq_eq_false_iff_ne.mpr hne, Bool.and_false, Bool.false_and]
        rfl
      · rw [decide_eq_false hmark, Bool.and_false, Bool.false_and, Bool.false_and]
        rfl

theorem awaitsExponent_concat (mark c e : Char) (mid : List Char) :
    awaitsExponent mark (c :: (mid ++ [e])) = (c.isDigit && (e == 'E' || e == 'e') && isMantissa mark false mid) := by
  cases mid with
  | nil => rfl
  | cons d mid =>
    have hparts : awaitsExponent mark (c :: ((d :: mid) ++ [e])) = (c.isDigit &&
        (((d :: mid) ++ [e]).getLast (List.cons_ne_nil _ _) == 'E' ||
          ((d :: mid) ++ [e]).getLast (List.cons_ne_nil _ _) == 'e') &&
        isMantissa mark false ((d :: mid) ++ [e]).dropLast) := rfl
    rw [hparts, List.getLast_concat, List.dropLast_concat]

theorem isAscii_or {p q : Char → Bool} (hp : IsAscii p) (hq : IsAscii q) : IsAscii fun c => p c || q c := fun c hc =>
  (Bool.or_eq_true_iff.mp hc).elim (hp c) (hq c)

theorem isAscii_isSpace : IsAscii isSpace :=
  isAscii_or (isAscii_or (isAscii_or (isAscii_beq (by decide)) (isAscii_beq (by decide))) (isAscii_beq (by decide)))
    (isAscii_beq (by decide))

theorem isAscii_exponent : IsAscii fun c => c == 'E' || c == 'e' := by
  intro c hc
  rcases Bool.or_eq_true_iff.mp hc with hc | hc <;> exact isAscii_beq (by decide) c hc

/-- A character alone is no mantissa with an exponent letter: it is a single byte, or bytes beyond ASCII. -/
theorem awaitsExponentOf?_single (mark c : Char) : awaitsExponentOf? mark (encode [c]) = some false := by
  obtain ⟨xs, x, hx, hbytes⟩ := exists_encode_concat [] c
  rw [List.nil_append] at hbytes
  rw [awaitsExponentOf?, hbytes, List.length_append, List.length_singleton, Nat.add_sub_cancel,
    List.getElem?_concat_length]
  rcases Nat.lt_or_ge c.toNat 128 with hc | hc
  · have hone : byteLength [c] = 1 := byteLength_singleton hc
    have hlength := congrArg List.length hbytes
    rw [length_encode, hone, List.length_append, List.length_singleton] at hlength
    exact if_pos (by omega)
  · rw [Option.bind_some, isAsciiOf_beyond (le_of_mem_encode hc hx)]
    exact ite_self _

theorem awaitsExponentOf?_concat (mark c e : Char) (mid : List Char) :
    awaitsExponentOf? mark (encode (c :: (mid ++ [e]))) = some (awaitsExponent mark (c :: (mid ++ [e]))) := by
  obtain ⟨x, xs, hx, hfirst⟩ := exists_encode_cons c (mid ++ [e])
  obtain ⟨ys, y, hy, hlast⟩ := exists_encode_concat (c :: mid) e
  rw [List.cons_append] at hlast
  have hlong : ¬ (encode (c :: (mid ++ [e]))).length < 2 := by
    have hc := c.utf8Size_pos
    have he := e.utf8Size_pos
    rw [length_encode, byteLength, byteLength_append, byteLength]
    omega
  have hlastByte : (encode (c :: (mid ++ [e])))[(encode (c :: (mid ++ [e]))).length - 1]? = some y := by
    rw [hlast, List.length_append, List.length_singleton, Nat.add_sub_cancel, List.getElem?_concat_length]
  have hfirstByte : (encode (c :: (mid ++ [e])))[0]? = some x := by
    rw [hfirst]
    rfl
  rw [awaitsExponentOf?, if_neg hlong, hlastByte, Option.bind_some, isAsciiOf_of_mem_encode isAscii_exponent hy, hfirstByte,
    Option.bind_some, isAsciiOf_of_mem_encode isAscii_isDigit hx, awaitsExponent_concat]
  by_cases he : (e == 'E' || e == 'e') = true
  · by_cases hc : c.isDigit = true
    · -- the first and the last character are a byte each, and the bytes between them are those of the others
      have hparts : encode (c :: (mid ++ [e])) = encode [c] ++ (encode mid ++ encode [e]) := by
        rw [← encode_append, ← encode_append]
        rfl
      have hone : (encode [c]).length = 1 := (length_encode [c]).trans (byteLength_singleton (isAscii_isDigit c hc))
      have hone' : (encode [e]).length = 1 := (length_encode [e]).trans (byteLength_singleton (isAscii_exponent e he))
      have hend : (encode (c :: (mid ++ [e]))).length - 1 = (encode [c]).length + (encode mid).length := by
        rw [hparts, List.length_append, List.length_append, hone']
        omega
      rw [he, hc, hend, hparts, ← hone, part?_append]
      exact congrArg some (isMantissaOf_eq mark mid false)
    · rw [he, Bool.eq_false_iff.mpr hc]
      rfl
  · rw [Bool.eq_false_iff.mpr he, Bool.and_false]
    rfl

/-- An exponent letter behind a mantissa is the same by bytes. -/
theorem awaitsExponent?_eq (mark : Char) {operand : List Char} (hs : text.toList = a ++ (operand ++ cs)) :
    awaitsExponent? mark text (byteLength a) (byteLength a + byteLength operand) = some (awaitsExponent mark operand) := by
  rw [awaitsExponent?, part?_of_split hs, Option.bind_some]
  cases operand with
  | nil => rfl
  | cons c operand =>
    rcases List.eq_nil_or_concat operand with rfl | ⟨mid, e, rfl⟩
    · exact awaitsExponentOf?_single mark c
    · rw [List.concat_eq_append]
      exact awaitsExponentOf?_concat mark c e mid

/-! ### Error codes -/

theorem toNat_foldByte_ascii : ∀ n < 128, (foldByte (Char.ofNat n).val.toUInt8).toNat = (Char.ofNat n).toLower.toNat := by
  decide

theorem toLower_ascii : ∀ n < 128, (Char.ofNat n).toLower.toNat < 128 := by decide

theorem toLower_lt {c : Char} (h : c.toNat < 128) : c.toLower.toNat < 128 := by
  have hbound := toLower_ascii c.toNat h
  rwa [Char.ofNat_toNat] at hbound

theorem toLower_beyond {c : Char} (h : 128 ≤ c.toNat) : c.toLower = c := by
  refine dif_neg fun hupper => ?_
  have hle : c.toNat ≤ 90 := UInt32.le_iff_toNat_le.mp hupper.2
  omega

theorem mem_encode_ascii {c : Char} (h : c.toNat < 128) : c.val.toUInt8 ∈ String.utf8EncodeChar c := by
  rw [(encode_ascii h).2.1]
  exact List.mem_singleton_self _

/-- A byte of a character is folded like the character, as far as ASCII characters go. -/
theorem foldByte_eq_iff {c e : Char} (he : e.toNat < 128) {x y : UInt8} (hx : x ∈ String.utf8EncodeChar c)
    (hy : y ∈ String.utf8EncodeChar e) : foldByte x = foldByte y ↔ c.toLower = e.toLower := by
  have hlower : ∀ {d : Char} {z : UInt8}, d.toNat < 128 → z ∈ String.utf8EncodeChar d →
      (foldByte z).toNat = d.toLower.toNat := by
    intro d z hd hz
    rw [(encode_ascii hd).2.1, List.mem_singleton] at hz
    have hfold := toNat_foldByte_ascii d.toNat hd
    rw [Char.ofNat_toNat] at hfold
    exact hz ▸ hfold
  have hbound := toLower_lt he
  rw [← UInt8.toNat_inj, ← Char.toNat_inj, hlower he hy]
  rcases Nat.lt_or_ge c.toNat 128 with hc | hc
  · rw [hlower hc hx]
  · have hbeyond := le_of_mem_encode hc hx
    rw [foldByte, isAsciiOf_beyond hbeyond, if_neg Bool.false_ne_true, toLower_beyond hc]
    exact iff_of_false (by omega) (by omega)

/-- An ASCII text stands in front of a text exactly if its bytes stand in front of the bytes, ASCII case aside. -/
theorem take_encode_eq_iff {code : List Char} (hcode : ∀ c ∈ code, c.toNat < 128) (cs : List Char) :
    ((encode cs).take (encode code).length).map foldByte = (encode code).map foldByte ↔
      code.map Char.toLower <+: cs.map Char.toLower := by
  induction code generalizing cs with
  | nil => simp
  | cons e es ih =>
    have he : e.toNat < 128 := hcode e List.mem_cons_self
    rw [encode_cons e es, (encode_ascii he).2.1, List.singleton_append, List.length_cons, List.map_cons, List.map_cons]
    cases cs with
    | nil => simp
    | cons c cs =>
      rw [List.map_cons, List.cons_prefix_cons, ← ih (fun d hd => hcode d (List.mem_cons_of_mem e hd)) cs]
      rcases Nat.lt_or_ge c.toNat 128 with hc | hc
      · rw [encode_cons c cs, (encode_ascii hc).2.1, List.singleton_append, List.take_succ_cons, List.map_cons, List.cons.injEq,
          foldByte_eq_iff he (mem_encode_ascii hc) (mem_encode_ascii he), eq_comm (a := c.toLower)]
      · obtain ⟨x, xs, hx, hbytes⟩ := exists_encode_cons c cs
        have hne : e.toLower ≠ c.toLower := by
          intro heq
          have hlt := toLower_lt he
          rw [heq, toLower_beyond hc] at hlt
          exact absurd hlt (Nat.not_lt.mpr hc)
        rw [hbytes, List.take_succ_cons, List.map_cons, List.cons.injEq, foldByte_eq_iff he hx (mem_encode_ascii he),
          eq_comm (a := c.toLower)]
        exact iff_of_false (fun h => hne h.1) (fun h => hne h.1)

theorem code_ascii (kind : ErrorKind) : ∀ c ∈ kind.code.toList, c.toNat < 128 := by
  have hall : kind.code.toList.all (fun c => decide (c.toNat < 128)) = true := by cases kind <;> decide
  exact fun c hc => of_decide_eq_true (List.all_eq_true.mp hall c hc)

theorem byteLength_ascii {cs : List Char} (h : ∀ c ∈ cs, c.toNat < 128) : byteLength cs = cs.length := by
  induction cs with
  | nil => rfl
  | cons c cs ih =>
    rw [byteLength, (encode_ascii (h c List.mem_cons_self)).1, ih fun d hd => h d (List.mem_cons_of_mem c hd),
      List.length_cons, Nat.add_comm]

/-- The error code at an offset is found byte by byte. -/
theorem findCode?_eq (hs : text.toList = a ++ cs) (kinds : List ErrorKind) :
    findCode? text (byteLength a) kinds = some (kinds.findSome? fun kind =>
      (splitAsciiStart kind.code.toList cs).map fun split => split.1.length) := by
  induction kinds with
  | nil => rfl
  | cons kind kinds ih =>
    have hcode : (bytes kind.code).length = kind.code.toList.length := by
      rw [bytes_eq_encode, length_encode, byteLength_ascii (code_ascii kind)]
    have hsize := size_of_split hs
    have hmatch := take_encode_eq_iff (code_ascii kind) cs
    rw [← splitAsciiStart_isSome_iff, ← bytes_eq_encode] at hmatch
    rw [findCode?, List.findSome?_cons, ih]
    by_cases hin : byteLength a + (bytes kind.code).length ≤ text.utf8ByteSize
    · have hpart : part? (bytes text) (byteLength a) (byteLength a + (bytes kind.code).length) =
          some ((encode cs).take (bytes kind.code).length) := by
        rw [part?, if_pos ⟨Nat.le_add_right _ _, by rwa [length_bytes]⟩, bytes_eq_encode text, hs, encode_append,
          ← length_encode a, List.drop_left, Nat.add_sub_cancel_left]
      rw [if_pos hin, hpart, Option.bind_some]
      cases hsplit : splitAsciiStart kind.code.toList cs with
      | none =>
        rw [if_neg (mt hmatch.mp (by rw [hsplit]; exact Bool.false_ne_true))]
        rfl
      | some split =>
        rw [if_pos (hmatch.mpr (by rw [hsplit]; rfl)), hcode, ← length_of_splitAsciiStart hsplit]
        rfl
    · rw [if_neg hin]
      cases hsplit : splitAsciiStart kind.code.toList cs with
      | none => rfl
      | some split =>
        -- the rest of the text is shorter than the code
        have hlength := congrArg List.length (hmatch.mpr (by rw [hsplit]; rfl))
        rw [List.length_map, List.length_map, List.length_take, length_encode] at hlength
        omega

theorem code_ne_nil (kind : ErrorKind) : kind.code.toList ≠ [] := by
  cases kind <;> decide

/-- The characters of an error code take a byte each. -/
theorem take_errorCodeLength {n : Nat} (h : errorCodeLength cs = some n) :
    1 ≤ n ∧ byteLength (cs.take n) = n := by
  obtain ⟨kind, hkind⟩ := isErrorCode_of_errorCodeLength h
  have hle : n ≤ cs.length := by
    obtain ⟨kind', -, hmap⟩ := List.exists_of_findSome?_eq_some h
    obtain ⟨split, hsplit, rfl⟩ := Option.map_eq_some_iff.mp hmap
    rw [splitAsciiStart_append hsplit, List.length_append]
    exact Nat.le_add_right _ _
  have hlength : (cs.take n).length = n := by rw [List.length_take, Nat.min_eq_left hle]
  have hascii : ∀ c ∈ cs.take n, c.toNat < 128 := by
    intro c hc
    by_contra hbeyond
    have hmem : c.toLower ∈ kind.code.toList.map Char.toLower := hkind ▸ List.mem_map_of_mem hc
    obtain ⟨e, he, heq⟩ := List.mem_map.mp hmem
    have hlt := toLower_lt (code_ascii kind e he)
    rw [heq, toLower_beyond (Nat.not_lt.mp hbeyond)] at hlt
    exact hbeyond hlt
  refine ⟨?_, by rw [byteLength_ascii hascii, hlength]⟩
  have hpos := List.length_pos_iff.mpr (code_ne_nil kind)
  rw [← List.length_map Char.toLower, ← hkind, List.length_map, hlength] at hpos
  exact hpos

/-! ### Operators of two characters -/

/-- A byte of a character is that of an ASCII character only if it is the same character. -/
theorem byte_eq_iff {d e : Char} (he : e.toNat < 128) {x : UInt8} (hx : x ∈ String.utf8EncodeChar d) :
    x = e.val.toUInt8 ↔ d = e := by
  have hself := isAsciiOf_of_mem_encode (isAscii_beq he) hx
  constructor
  · intro heq
    rw [heq, isAsciiOf_ascii he, beq_self_eq_true] at hself
    exact beq_iff_eq.mp hself.symm
  · intro heq
    rw [heq, (encode_ascii he).2.1] at hx
    exact List.mem_singleton.mp hx

/-- Two bytes are an operator exactly if two characters are. -/
theorem isLongSign?_eq {c d : Char} (hc : c.toNat < 128) (hs : text.toList = a ++ c :: d :: cs) :
    ∃ long, isLongSign? text (byteLength a) = some long ∧
      (long = true ↔ (c = '>' ∧ d = '=') ∨ (c = '<' ∧ d = '=') ∨ (c = '<' ∧ d = '>')) := by
  have hs' : text.toList = (a ++ [c]) ++ d :: cs := hs.trans (List.append_cons _ _ _)
  have hlt := lt_size_of_split hs'
  rw [(isAsciiOf_self hc hs).2] at hlt
  obtain ⟨y, ys, hy, hbytes⟩ := exists_encode_cons d cs
  have hx := mem_encode_ascii hc
  have hall : bytes text = encode a ++ ([c.val.toUInt8, y] ++ ys) := by
    rw [bytes_eq_encode, hs, encode_append, encode_cons, hbytes, (encode_ascii hc).2.1]
    rfl
  have hpart : part? (bytes text) (byteLength a) (byteLength a + 2) = some [c.val.toUInt8, y] := by
    rw [hall, ← length_encode a]
    exact part?_append _ _ _
  have hsigns : longSigns = [['>'.val.toUInt8, '='.val.toUInt8], ['<'.val.toUInt8, '='.val.toUInt8],
      ['<'.val.toUInt8, '>'.val.toUInt8]] := by decide
  refine ⟨longSigns.contains [c.val.toUInt8, y], ?_, ?_⟩
  · rw [isLongSign?, if_pos hlt, hpart, Option.map_some]
  · rw [List.contains_iff_mem, hsigns]
    simp only [List.mem_cons, List.not_mem_nil, or_false, List.cons.injEq, and_true]
    rw [byte_eq_iff (by decide) hx, byte_eq_iff (by decide) hx, byte_eq_iff (by decide) hy, byte_eq_iff (by decide) hy]

end Text

end Spreadsheet.Lexer
