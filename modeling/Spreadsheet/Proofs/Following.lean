import Spreadsheet.Proofs.Scanning

/-!
# Following: the lexer by bytes goes where the lexer by characters goes

A text may have characters of several bytes anywhere, and the separators of the locale may be any characters, also
quotes, letters or digits. Still the walk over bytes always has an answer, the one of the lexer.

* `Lexer.Stands` — where a state of the lexer stands in the text, and that every token so far is a piece of the text.
  Every operation on states keeps this, `Stands.add` for tokens and `Stands.extend` for gathered characters.
* `Lexer.follows_step` — one step over an ASCII character is one step over its byte, and ends where a character does.
  A character beyond ASCII is passed byte by byte (`Lexer.scan?_of_beyond`).
* `Lexer.tokenizeBytes?_eq` — the whole text: there is an answer, and every token is what stands in the text from its
  start to its stop.
-/

namespace Spreadsheet.Lexer

open Text Grid

/-! ### Where the lexer stands -/

/-- A token that is what stands in the text from its start to its stop. One that opens a call ends in the
parenthesis. -/
structure IsPlaced (text : String) (t : Token) : Prop where
  slice : slice? text t.span.start t.span.stop = some t.text
  opens : t.kind = .call → t.role = .opening → ∃ name, t.text.toList = name ++ ['(']

/-- A state of the lexer stands in the text behind some characters: the operand follows on them, and the rest on the
operand. Every token so far is a piece of the text. -/
structure Stands (text : String) (s : State) (before rest : List Char) : Prop where
  split : text.toList = before ++ (s.operand.reverse ++ rest)
  start : s.start = byteLength before
  offset : s.offset = byteLength before + byteLength s.operand.reverse
  pieces : ∀ t ∈ s.tokens, IsPlaced text t

/-- The scanner where the lexer stands. -/
def State.cursor (s : State) : Cursor := ⟨s.offset, s.start, s.offset, s.openers, s.tokens⟩

/-- Puts a token behind the others and goes on behind it, with no operand. -/
def State.add (s : State) (t : Token) : State :=
  { s with offset := t.span.stop, start := t.span.stop, operand := [], tokens := t :: s.tokens }

namespace Stands

variable {l : Locale} {text : String} {s : State} {before rest : List Char}

theorem behind (h : Stands text s before rest) : text.toList = (before ++ s.operand.reverse) ++ rest := by
  rw [h.split, List.append_assoc]

theorem offset_eq (h : Stands text s before rest) : s.offset = byteLength (before ++ s.operand.reverse) := by
  rw [h.offset, byteLength_append]

/-- Bytes are gathered exactly if there is an operand. -/
theorem start_lt_iff (h : Stands text s before rest) : s.cursor.start < s.cursor.stop ↔ s.operand ≠ [] := by
  show s.start < s.offset ↔ _
  have hzero : byteLength s.operand.reverse = 0 ↔ s.operand = [] := by
    rw [byteLength_eq_zero, List.reverse_eq_nil_iff]
  have hstart := h.start
  have hoffset := h.offset
  rw [← not_iff_not, not_not, ← hzero]
  omega

theorem start_eq (h : Stands text s before rest) (hoperand : s.operand = []) : s.start = s.offset := by
  rw [h.offset, hoperand, h.start]
  rfl

/-- A token with the operand begins where the operand does. -/
theorem first_eq (h : Stands text s before rest) : s.cursor.first = byteLength before := by
  unfold Cursor.first
  by_cases hoperand : s.operand = []
  · rw [if_neg (mt h.start_lt_iff.mp (not_not.mpr hoperand))]
    exact (h.start_eq hoperand).symm.trans h.start
  · rw [if_pos (h.start_lt_iff.mpr hoperand)]
    exact h.start

/-- **Every token that the lexer adds is cut out of the text.** -/
theorem add (h : Stands text s before rest) {a piece behind : List Char} (hs : text.toList = a ++ (piece ++ behind))
    (kind : TokenKind) (role : String → TokenRole)
    (hopens : kind = .call → role (String.ofList piece) = .opening → ∃ name, piece = name ++ ['(']) {start stop : Nat}
    (hstart : start = byteLength a) (hstop : stop = byteLength a + byteLength piece) :
    s.cursor.put? text kind role start stop =
        some (s.add ⟨String.ofList piece, kind, role (String.ofList piece), ⟨start, stop⟩⟩).cursor ∧
      Stands text (s.add ⟨String.ofList piece, kind, role (String.ofList piece), ⟨start, stop⟩⟩) (a ++ piece) behind := by
  subst hstart hstop
  have hslice := slice?_of_split hs
  refine ⟨?_, ⟨?_, ?_, ?_, ?_⟩⟩
  · rw [Cursor.put?, Cursor.cut?, hslice]
    rfl
  · rw [hs, List.append_assoc]
    rfl
  · rw [byteLength_append]
    rfl
  · rw [byteLength_append]
    rfl
  · intro t ht
    rcases List.mem_cons.mp ht with rfl | ht
    · refine ⟨hslice, fun hkind hrole => ?_⟩
      rw [String.toList_ofList]
      exact hopens hkind hrole
    · exact h.pieces t ht

/-- Ending the operand, if there is one. -/
theorem flush (h : Stands text s before rest) (l : Locale) :
    s.cursor.save? l text = some (s.flush l).cursor ∧
      Stands text (s.flush l) (before ++ s.operand.reverse) rest ∧ (s.flush l).operand = [] ∧
        (s.flush l).offset = s.offset := by
  by_cases hoperand : s.operand = []
  · rw [State.flush, if_pos hoperand, Cursor.save?, if_neg (mt h.start_lt_iff.mp (not_not.mpr hoperand))]
    refine ⟨rfl, ?_, hoperand, rfl⟩
    rw [hoperand, List.reverse_nil, List.append_nil]
    exact h
  · have hadd := h.add h.split .operand (fun piece => operandRole l piece.toList) (fun hkind => TokenKind.noConfusion hkind)
      h.start h.offset
    have hflush : s.flush l = s.add ⟨String.ofList s.operand.reverse, .operand,
        operandRole l (String.ofList s.operand.reverse).toList, ⟨s.start, s.offset⟩⟩ := by
      rw [State.flush, if_neg hoperand, State.pushWithOperand, if_neg hoperand, List.append_nil, String.toList_ofList]
      rfl
    rw [Cursor.save?, if_pos (h.start_lt_iff.mpr hoperand), hflush]
    exact ⟨hadd.1, hadd.2, rfl, rfl⟩

/-- Ending the operand unless it ends in an ASCII character. -/
theorem flushUnlessLast (h : Stands text s before rest) (l : Locale) {last : Char} (hlast : last.toNat < 128) :
    s.cursor.saveUnlessLast? l text last = some (s.flushUnlessLast l last).cursor ∧
      (∃ before, Stands text (s.flushUnlessLast l last) before rest) ∧ (s.flushUnlessLast l last).offset = s.offset := by
  obtain ⟨hsave, hstands, -, hoffset⟩ := h.flush l
  by_cases hoperand : s.operand = []
  · have hsame : s.flushUnlessLast l last = s := by
      rw [State.flushUnlessLast, hoperand, List.head?_nil, if_neg (Option.some_ne_none last).symm, State.flush,
        if_pos hoperand]
    rw [hsame, Cursor.saveUnlessLast?, if_neg (mt h.start_lt_iff.mp (not_not.mpr hoperand))]
    exact ⟨rfl, ⟨before, h⟩, rfl⟩
  · obtain ⟨d, ds, hds⟩ := List.exists_cons_of_ne_nil hoperand
    have hs : text.toList = (before ++ ds.reverse) ++ d :: rest := by
      rw [h.split, hds, List.reverse_cons]
      simp only [List.append_assoc, List.singleton_append]
    have hstop : s.cursor.stop = byteLength ((before ++ ds.reverse) ++ [d]) := by
      rw [List.append_assoc, ← List.reverse_cons, ← hds]
      exact h.offset_eq
    obtain ⟨x, hx, hbyte⟩ := byte?_last hs
    rw [Cursor.saveUnlessLast?, if_pos (h.start_lt_iff.mpr hoperand), hstop, hbyte, Option.bind_some,
      isAsciiOf_of_mem_encode (isAscii_beq hlast) hx]
    by_cases hd : d = last
    · have hsame : s.flushUnlessLast l last = s := by
        rw [State.flushUnlessLast, hds, List.head?_cons, if_pos (congrArg some hd)]
      rw [hsame, if_pos (beq_iff_eq.mpr hd)]
      exact ⟨rfl, ⟨before, h⟩, rfl⟩
    · have hsame : s.flushUnlessLast l last = s.flush l := by
        rw [State.flushUnlessLast, hds, List.head?_cons, if_neg fun heq => hd (Option.some.inj heq)]
      rw [hsame, if_neg (mt beq_iff_eq.mp hd)]
      exact ⟨hsave, ⟨_, hstands⟩, hoffset⟩

/-- A token of the next characters. -/
theorem push (h : Stands text s before rest) {cs behind : List Char} (hrest : rest = cs ++ behind) (kind : TokenKind)
    (role : String → TokenRole) (hopens : kind = .call → role (String.ofList cs) ≠ .opening) :
    s.cursor.put? text kind role s.offset (s.offset + byteLength cs) =
        some (s.push kind (role (String.ofList cs)) cs).cursor ∧
      Stands text (s.push kind (role (String.ofList cs)) cs) (before ++ s.operand.reverse ++ cs) behind := by
  subst hrest
  exact h.add h.behind kind role (fun hkind hrole => absurd hrole (hopens hkind)) h.offset_eq (congrArg (· + _) h.offset_eq)

/-- A token of the operand and the next characters. -/
theorem pushWithOperand (h : Stands text s before rest) {cs behind : List Char} (hrest : rest = cs ++ behind)
    (kind : TokenKind) (role : TokenRole)
    (hopens : kind = .call → role = .opening → ∃ name, s.operand.reverse ++ cs = name ++ ['(']) :
    s.cursor.put? text kind (fun _ => role) s.cursor.first (s.offset + byteLength cs) =
        some (s.pushWithOperand kind role cs).cursor ∧
      Stands text (s.pushWithOperand kind role cs) (before ++ (s.operand.reverse ++ cs)) behind := by
  subst hrest
  have hsplit : text.toList = before ++ ((s.operand.reverse ++ cs) ++ behind) := by rw [h.split, List.append_assoc]
  have hadd := h.add hsplit kind (fun _ => role) hopens h.first_eq
    (by rw [byteLength_append, ← Nat.add_assoc, ← h.offset])
  have hpush : s.pushWithOperand kind role cs = s.add ⟨String.ofList (s.operand.reverse ++ cs), kind, role,
      ⟨s.cursor.first, s.offset + byteLength cs⟩⟩ := by
    rw [h.first_eq, ← h.start, State.pushWithOperand]
    by_cases hoperand : s.operand = []
    · rw [if_pos hoperand, hoperand, List.reverse_nil, List.nil_append, h.start_eq hoperand]
      rfl
    · rw [if_neg hoperand]
      rfl
  rw [hpush]
  exact hadd

theorem offset_pushWithOperand (s : State) (kind : TokenKind) (role : TokenRole) (cs : List Char) :
    (s.pushWithOperand kind role cs).offset = s.offset + byteLength cs := by
  unfold State.pushWithOperand
  split <;> rfl

/-- Gathering characters. -/
theorem extend (h : Stands text s before rest) {cs behind : List Char} (hrest : rest = cs ++ behind) :
    s.cursor.gather (s.offset + byteLength cs) = (s.extend cs).cursor ∧ Stands text (s.extend cs) before behind := by
  have hstart : (if s.operand = [] then s.offset else s.start) = byteLength before := by
    by_cases hoperand : s.operand = []
    · rw [if_pos hoperand, ← h.start_eq hoperand, h.start]
    · rw [if_neg hoperand, h.start]
  subst hrest
  refine ⟨?_, ⟨?_, hstart, ?_, h.pieces⟩⟩
  · rw [Cursor.gather, h.first_eq, ← hstart]
    rfl
  · rw [h.split, State.extend]
    simp only [List.reverse_append, List.reverse_reverse, List.append_assoc]
  · rw [State.extend]
    simp only [List.reverse_append, List.reverse_reverse, byteLength_append, h.offset, Nat.add_assoc]

end Stands

/-! ### One step -/

/-- The scanner answers as the lexer does, which took a character at an offset and some of those behind it: with the same
error, or further on in the text. -/
inductive Follows (text : String) (offset : Nat) (cs : List Char) :
    Option (Except LexError Cursor) → Except LexError (State × Nat) → Prop
  | error (e : LexError) : Follows text offset cs (some (.error e)) (.error e)
  | ok {next : State} {n : Nat} {before : List Char} (hstands : Stands text next before (cs.drop n))
      (hlt : offset < next.offset) : Follows text offset cs (some (.ok next.cursor)) (.ok (next, n))

section Step

variable {l : Locale} {text : String} {s : State} {before cs : List Char} {c : Char}

theorem lt_add_byteLength (offset : Nat) (c : Char) (cs : List Char) : offset < offset + byteLength (c :: cs) := by
  have hc := c.utf8Size_pos
  rw [byteLength]
  omega

/-- A token of one ASCII character. -/
theorem Stands.pushSingle (h : Stands text s before (c :: cs)) (hc : c.toNat < 128) (kind : TokenKind) (role : TokenRole)
    (hopens : kind = .call → role ≠ .opening) :
    s.cursor.put? text kind (fun _ => role) s.offset (s.offset + 1) = some (s.push kind role [c]).cursor ∧
      Stands text (s.push kind role [c]) (before ++ s.operand.reverse ++ [c]) cs := by
  have hpush := h.push (List.singleton_append (x := c) (l := cs)).symm kind (fun _ => role) hopens
  rw [byteLength_singleton hc] at hpush
  exact hpush

theorem follows_quote (h : Stands text s before (c :: cs)) (hc : c.toNat < 128) :
    Follows text s.offset cs (scanQuote? l text s.cursor c) (stepQuote l s c cs) := by
  obtain ⟨hsave, ⟨before', hstands⟩, hoffset⟩ := h.flushUnlessLast l (by decide : ':'.toNat < 128)
  have hnext := (isAsciiOf_self hc hstands.behind).2
  have hclosing := closing?_eq hc (hstands.behind.trans (List.append_cons _ _ _))
  have hsize := size_of_split hstands.behind
  rw [hnext, ← hstands.offset_eq] at hclosing
  rw [← hstands.offset_eq] at hsize
  rw [scanQuote?, hsave, Option.bind_some, stepQuote, ← hoffset]
  generalize s.flushUnlessLast l ':' = s at hstands hclosing hsize
  show Follows text s.offset cs ((closing? text c (s.offset + 1)).bind _) _
  rw [hclosing, Option.bind_some]
  cases hlength : quotedLength c cs with
  | none =>
    dsimp only [Option.elim]
    rw [hsize]
    exact .error _
  | some n =>
    dsimp only [Option.elim]
    have hrest : c :: cs = (c :: cs.take n) ++ cs.drop n := by rw [List.cons_append, List.take_append_drop]
    have hstop : s.offset + 1 + byteLength (cs.take n) = s.offset + byteLength (c :: cs.take n) := by
      rw [byteLength, (encode_ascii hc).1, Nat.add_assoc]
    rw [hstop]
    by_cases hquote : c = '"'
    · obtain ⟨hput, hpush⟩ := hstands.push hrest .operand (fun piece => operandRole l piece.toList)
        fun hkind => TokenKind.noConfusion hkind
      rw [String.toList_ofList] at hput hpush
      rw [if_pos hquote, if_pos hquote]
      show Follows _ _ _ ((s.cursor.put? _ _ _ s.offset _).map _) _
      rw [hput]
      exact .ok hpush (lt_add_byteLength _ _ _)
    · obtain ⟨hgather, hextend⟩ := hstands.extend hrest
      rw [if_neg hquote, if_neg hquote, hgather]
      exact .ok hextend (lt_add_byteLength _ _ _)

theorem follows_errorCode (h : Stands text s before (c :: cs)) :
    Follows text s.offset cs (scanErrorCode? l text s.cursor) (stepErrorCode l s c cs) := by
  obtain ⟨hsave, ⟨before', hstands⟩, hoffset⟩ := h.flushUnlessLast l (by decide : '!'.toNat < 128)
  have hfind : findCode? text _ ErrorKind.all = some (errorCodeLength (c :: cs)) :=
    findCode?_eq hstands.behind ErrorKind.all
  rw [← hstands.offset_eq] at hfind
  rw [scanErrorCode?, hsave, Option.bind_some, stepErrorCode, ← hoffset]
  generalize s.flushUnlessLast l '!' = s at hstands hfind
  show Follows text s.offset cs ((findCode? text s.offset ErrorKind.all).bind _) _
  rw [hfind, Option.bind_some]
  cases hlength : errorCodeLength (c :: cs) with
  | none => exact .error _
  | some n =>
    obtain ⟨hpos, hbytes⟩ := take_errorCodeLength hlength
    have hdrop : cs.drop (n - 1) = (c :: cs).drop n := by
      rw [← List.drop_succ_cons (a := c), Nat.sub_add_cancel hpos]
    obtain ⟨hput, hpush⟩ := hstands.pushWithOperand (List.take_append_drop n (c :: cs)).symm .operand .error
      fun hkind => TokenKind.noConfusion hkind
    rw [hbytes] at hput
    dsimp only
    show Follows _ _ _ ((s.cursor.put? _ _ _ _ (s.offset + n)).map _) _
    rw [hput]
    refine .ok (hdrop ▸ hpush) ?_
    rw [Stands.offset_pushWithOperand, hbytes]
    omega

theorem follows_blank (h : Stands text s before (c :: cs)) (hc : isSpace c = true) :
    Follows text s.offset cs (scanBlank? text s.cursor)
      (.ok (s.push .blank .plain (c :: cs.takeWhile isSpace), (cs.takeWhile isSpace).length)) := by
  have hskip := skipWhile?_eq isAscii_isSpace h.behind
  rw [← h.offset_eq, List.takeWhile_cons_of_pos hc] at hskip
  have hrest : c :: cs = (c :: cs.takeWhile isSpace) ++ cs.drop (cs.takeWhile isSpace).length := by
    have hdrop : (cs.takeWhile isSpace ++ cs.dropWhile isSpace).drop (cs.takeWhile isSpace).length = cs.dropWhile isSpace :=
      List.drop_left
    rw [List.takeWhile_append_dropWhile] at hdrop
    rw [hdrop, List.cons_append, List.takeWhile_append_dropWhile]
  obtain ⟨hput, hpush⟩ := h.push hrest .blank (fun _ => .plain) fun hkind => TokenKind.noConfusion hkind
  rw [scanBlank?]
  show Follows _ _ _ ((skipWhile? text isSpace s.offset).bind fun stop => (s.cursor.put? _ _ _ s.offset stop).map _) _
  rw [hskip, Option.bind_some, hput]
  exact .ok hpush (lt_add_byteLength _ _ _)

theorem signKindOf_eq (s : State) {x : UInt8} (hx : x ∈ String.utf8EncodeChar c) :
    signKindOf s.cursor x = stepSign.signKind s c := by
  have hafter : (s.cursor.tokens.find? fun t => t.kind != .blank).any Token.endsOperand = s.afterOperand := by
    rw [State.afterOperand]
    show (s.tokens.find? fun t => t.kind != .blank).any Token.endsOperand = _
    cases s.tokens.find? fun t => t.kind != .blank <;> rfl
  unfold signKindOf stepSign.signKind
  rw [hafter, isAsciiOf_of_mem_encode (isAscii_beq (by decide)) hx,
    isAsciiOf_of_mem_encode (isAscii_or (isAscii_beq (by decide)) (isAscii_beq (by decide))) hx]
  simp only [beq_iff_eq, Bool.and_eq_true, Bool.or_eq_true]

theorem follows_sign (h : Stands text s before (c :: cs)) (hc : c.toNat < 128) {x : UInt8}
    (hx : x ∈ String.utf8EncodeChar c) (hoperand : s.operand = []) :
    Follows text s.offset cs (scanSign? text s.cursor x) (.ok (stepSign l s c cs)) := by
  have hflush : s.flush l = s := if_pos hoperand
  have hshort : Follows text s.offset cs ((s.cursor.put? text (signKindOf s.cursor x) (fun _ => .plain) s.offset
      (s.offset + 1)).map .ok) (.ok (s.push (stepSign.signKind s c) .plain [c], 0)) := by
    obtain ⟨hput, hpush⟩ := h.pushSingle hc (stepSign.signKind s c) .plain fun _ hrole => TokenRole.noConfusion hrole
    rw [signKindOf_eq s hx, hput]
    exact .ok hpush (lt_add_byteLength _ _ _)
  rw [scanSign?, stepSign.eq_def]
  dsimp only
  rw [hflush]
  show Follows _ _ _ ((isLongSign? text s.offset).bind fun long => if long then
    (s.cursor.put? text _ _ s.offset (s.offset + 2)).map _ else (s.cursor.put? text _ _ s.offset (s.offset + 1)).map _) _
  cases cs with
  | nil =>
    have hsize : text.utf8ByteSize = s.offset + 1 := by
      rw [size_of_split h.behind, h.offset_eq, byteLength_singleton hc]
    rw [isLongSign?, if_neg (by omega), Option.bind_some, if_neg Bool.false_ne_true]
    exact hshort
  | cons d ds =>
    obtain ⟨long, hlong, hiff⟩ := isLongSign?_eq hc h.behind
    rw [← h.offset_eq] at hlong
    rw [hlong, Option.bind_some]
    dsimp only
    by_cases hsign : (c = '>' ∧ d = '=') ∨ (c = '<' ∧ d = '=') ∨ (c = '<' ∧ d = '>')
    · have hd : d.toNat < 128 := by
        rcases hsign with ⟨-, rfl⟩ | ⟨-, rfl⟩ | ⟨-, rfl⟩ <;> decide
      have htwo : byteLength [c, d] = 2 := byteLength_ascii (by simp [hc, hd])
      have hrest : c :: d :: ds = [c, d] ++ ds := rfl
      obtain ⟨hput, hpush⟩ := h.push hrest .infixSign (fun _ => .plain) fun hkind => TokenKind.noConfusion hkind
      rw [htwo] at hput
      rw [if_pos (hiff.mpr hsign), if_pos hsign, hput]
      exact .ok hpush (lt_add_byteLength _ _ _)
    · rw [if_neg (mt hiff.mp hsign), if_neg hsign]
      exact hshort

/-- The same state with other open parentheses. -/
def State.withOpeners (s : State) (openers : List TokenKind) : State := { s with openers := openers }

theorem Stands.withOpeners (h : Stands text s before cs) (openers : List TokenKind) :
    Stands text (s.withOpeners openers) before cs := ⟨h.split, h.start, h.offset, h.pieces⟩

theorem follows_opening (h : Stands text s before ('(' :: cs)) {kind : TokenKind}
    (hkind : kind = if s.operand = [] then .group else .call) :
    Follows text s.offset cs (scanOpening? text s.cursor)
      (.ok ((s.pushWithOperand kind .opening ['(']).withOpeners (kind :: s.openers), 0)) := by
  have hkind' : (if s.cursor.start < s.cursor.stop then TokenKind.call else .group) = kind := by
    by_cases hoperand : s.operand = []
    · rw [hkind, if_neg (mt h.start_lt_iff.mp (not_not.mpr hoperand)), if_pos hoperand]
    · rw [hkind, if_pos (h.start_lt_iff.mpr hoperand), if_neg hoperand]
  obtain ⟨hput, hpush⟩ := h.pushWithOperand List.singleton_append.symm kind .opening fun _ _ => ⟨_, rfl⟩
  have hlt : s.offset < ((s.pushWithOperand kind .opening ['(']).withOpeners (kind :: s.openers)).offset := by
    show s.offset < (s.pushWithOperand kind .opening ['(']).offset
    rw [Stands.offset_pushWithOperand]
    exact lt_add_byteLength _ _ _
  rw [byteLength_singleton (by decide)] at hput
  rw [scanOpening?, hkind']
  show Follows _ _ _ ((s.cursor.put? _ _ _ _ (s.offset + 1)).map _) _
  rw [hput]
  exact .ok (hpush.withOpeners (kind :: s.openers)) hlt

theorem follows_closing_nil (hopeners : s.openers = []) :
    Follows text s.offset cs (scanClosing? text s.cursor) (.error (.unopenedParenthesis s.offset)) := by
  have hcursor : s.cursor.openers = [] := hopeners
  rw [scanClosing?, hcursor]
  exact .error _

theorem follows_closing_cons (h : Stands text s before (')' :: cs)) {kind : TokenKind} {outer : List TokenKind}
    (hopeners : s.openers = kind :: outer) :
    Follows text s.offset cs (scanClosing? text s.cursor) (.ok ((s.push kind .closing [')']).withOpeners outer, 0)) := by
  have hcursor : s.cursor.openers = kind :: outer := hopeners
  obtain ⟨hput, hpush⟩ := h.pushSingle (by decide) kind .closing fun _ hrole => TokenRole.noConfusion hrole
  rw [scanClosing?, hcursor]
  dsimp only
  show Follows _ _ _ ((s.cursor.put? _ _ _ s.offset (s.offset + 1)).map _) _
  rw [hput]
  have hlt : s.offset < ((s.push kind .closing [')']).withOpeners outer).offset := lt_add_byteLength _ _ _
  exact .ok (hpush.withOpeners outer) hlt

theorem follows_separator (h : Stands text s before (c :: cs)) (hc : c.toNat < 128) (hsep : l.separator = c) :
    Follows text s.offset cs (scanSeparator? l text s.cursor)
      (if s.openers.head? = some .call then .ok (s.push .separator .argument [c], 0)
        else .error (.separatorOutsideCall c s.offset)) := by
  obtain ⟨hput, hpush⟩ := h.pushSingle hc .separator .argument fun hkind => TokenKind.noConfusion hkind
  rw [scanSeparator?, hsep]
  show Follows _ _ _ (if s.openers.head? = some .call then (s.cursor.put? _ _ _ s.offset (s.offset + 1)).map _ else _) _
  by_cases hcall : s.openers.head? = some .call
  · rw [if_pos hcall, if_pos hcall, hput]
    exact .ok hpush (lt_add_byteLength _ _ _)
  · rw [if_neg hcall, if_neg hcall]
    exact .error _

theorem follows_gather (h : Stands text s before (c :: cs)) (hc : c.toNat < 128) :
    Follows text s.offset cs (some (.ok (s.cursor.gather (s.offset + 1)))) (.ok (s.extend [c], 0)) := by
  obtain ⟨hgather, hextend⟩ := h.extend (List.singleton_append (x := c) (l := cs)).symm
  rw [byteLength_singleton hc] at hgather
  rw [hgather]
  exact .ok hextend (lt_add_byteLength _ _ _)

theorem isExponentSign?_eq (h : Stands text s before (c :: cs)) (hc : c.toNat < 128) :
    isExponentSign? l text s.cursor c.val.toUInt8 =
      some (decide ((c = '+' ∨ c = '-') ∧ awaitsExponent l.decimal s.operand.reverse = true)) := by
  have hawaits := awaitsExponent?_eq l.decimal h.split
  rw [← h.offset, ← h.start] at hawaits
  have hplus : (c == '+' || c == '-') = decide (c = '+' ∨ c = '-') := by
    rw [Bool.eq_iff_iff, Bool.or_eq_true, beq_iff_eq, beq_iff_eq, decide_eq_true_iff]
  unfold isExponentSign?
  rw [isAsciiOf_ascii hc, hplus]
  by_cases hoperand : s.operand = []
  · rw [decide_eq_false (mt h.start_lt_iff.mp (not_not.mpr hoperand)), Bool.and_false, if_neg Bool.false_ne_true, hoperand]
    exact congrArg some (decide_eq_false fun hsign => Bool.false_ne_true hsign.2).symm
  · rw [decide_eq_true (h.start_lt_iff.mpr hoperand), Bool.and_true]
    by_cases hc' : c = '+' ∨ c = '-'
    · rw [if_pos (decide_eq_true hc')]
      refine hawaits.trans (congrArg some ?_)
      rw [Bool.eq_iff_iff, decide_eq_true_iff, and_iff_right hc']
    · rw [if_neg (mt of_decide_eq_true hc')]
      exact congrArg some (decide_eq_false fun hsign => hc' hsign.1).symm

/-- What a character does that is no part of an exponent, the operand being ended where the character ends it. -/
theorem follows_byte (h : Stands text s before (c :: cs)) (hc : c.toNat < 128)
    (hsign : ¬ ((c = '+' ∨ c = '-') ∧ awaitsExponent l.decimal s.operand.reverse = true))
    (hends : endsOperand l.separator c = true → s.operand = []) :
    Follows text s.offset cs (scanByte? l text s.cursor c.val.toUInt8) (step l s c cs) := by
  have hflush : (if endsOperand l.separator c = true then s.flush l else s) = s := by
    by_cases hend : endsOperand l.separator c = true
    · rw [if_pos hend, State.flush, if_pos (hends hend)]
    · rw [if_neg hend]
  unfold step scanByte?
  simp only [isAsciiOf_ascii hc, beq_iff_eq, Bool.or_eq_true]
  rw [if_neg hsign, hflush]
  -- the separator may be any ASCII character, a quote too: the cases stay in the order in which the lexer asks for them
  by_cases hdouble : c = '"'
  · rw [if_pos hdouble, if_pos (Or.inl hdouble)]
    subst hdouble
    exact follows_quote h hc
  rw [if_neg hdouble]
  by_cases hsingle : c = '\''
  · rw [if_pos hsingle, if_pos (Or.inr hsingle)]
    subst hsingle
    exact follows_quote h hc
  rw [if_neg hsingle, if_neg (not_or.mpr ⟨hdouble, hsingle⟩)]
  by_cases hcode : c = '#'
  · rw [if_pos hcode, if_pos hcode]
    exact follows_errorCode h
  rw [if_neg hcode, if_neg hcode]
  by_cases hspace : isSpace c = true
  · rw [if_pos hspace, if_pos hspace]
    exact follows_blank h hspace
  rw [if_neg hspace, if_neg hspace]
  by_cases hoperator : isSign c = true
  · rw [if_pos hoperator, if_pos hoperator]
    exact follows_sign h hc (mem_encode_ascii hc) (hends (by simp [endsOperand, hoperator]))
  rw [if_neg hoperator, if_neg hoperator]
  by_cases hopening : c = '('
  · rw [if_pos hopening, if_pos hopening]
    subst hopening
    exact follows_opening h rfl
  rw [if_neg hopening, if_neg hopening]
  by_cases hclosing : c = ')'
  · rw [if_pos hclosing, if_pos hclosing]
    subst hclosing
    cases hopeners : s.openers with
    | nil => exact follows_closing_nil hopeners
    | cons kind outer => exact follows_closing_cons h hopeners
  rw [if_neg hclosing, if_neg hclosing]
  by_cases hseparator : c = l.separator
  · rw [if_pos hseparator, if_pos hseparator]
    exact follows_separator h hc hseparator.symm
  rw [if_neg hseparator, if_neg hseparator]
  by_cases hbrace : c = '{' ∨ c = '}'
  · rw [if_pos hbrace, if_pos hbrace]
    exact .error _
  rw [if_neg hbrace, if_neg hbrace]
  by_cases hbracket : c = '[' ∨ c = ']'
  · rw [if_pos hbracket, if_pos hbracket]
    exact .error _
  rw [if_neg hbracket, if_neg hbracket]
  exact follows_gather h hc

/-- **One step over an ASCII character is one step over its byte.** -/
theorem follows_step (h : Stands text s before (c :: cs)) (hc : c.toNat < 128) :
    Follows text s.offset cs (scanStep? l text s.cursor) (step l s c cs) := by
  have hbyte : byte? text s.cursor.offset = some c.val.toUInt8 := by
    show byte? text s.offset = _
    rw [h.offset_eq]
    exact byte?_ascii h.behind hc
  rw [scanStep?, hbyte, Option.bind_some, isExponentSign?_eq h hc, Option.bind_some, isAsciiOf_ascii hc]
  by_cases hsign : (c = '+' ∨ c = '-') ∧ awaitsExponent l.decimal s.operand.reverse = true
  · rw [if_pos (decide_eq_true hsign), step, if_pos hsign]
    exact follows_gather h hc
  rw [if_neg (mt of_decide_eq_true hsign)]
  by_cases hend : endsOperand l.separator c = true
  · obtain ⟨hsave, hstands, hoperand, hoffset⟩ := h.flush l
    have hsign' : ¬ ((c = '+' ∨ c = '-') ∧ awaitsExponent l.decimal (s.flush l).operand.reverse = true) := by
      rw [hoperand]
      exact fun hsign => Bool.false_ne_true hsign.2
    have hstep : step l s c cs = step l (s.flush l) c cs := by
      have hflush : (s.flush l).flush l = s.flush l := if_pos hoperand
      unfold step
      rw [if_neg hsign, if_neg hsign', if_pos hend, if_pos hend, hflush]
    rw [if_pos hend, hsave, Option.bind_some, hstep, ← hoffset]
    exact follows_byte hstands hc hsign' fun _ => hoperand
  · rw [if_neg hend, Option.bind_some]
    exact follows_byte h hc hsign fun hends => absurd hends hend

end Step

/-! ### The whole walk -/

section Walk

variable {l : Locale} {text : String} {s : State} {before rest cs : List Char} {c : Char}

/-- A byte beyond ASCII is gathered. -/
theorem scanStep?_of_beyond {cursor : Cursor} {x : UInt8} (hbyte : byte? text cursor.offset = some x)
    (hx : 128 ≤ x.toNat) : scanStep? l text cursor = some (.ok (cursor.gather (cursor.offset + 1))) := by
  have hbeyond : ∀ p, isAsciiOf p x = false := fun p => isAsciiOf_beyond hx
  rw [scanStep?, hbyte]
  simp only [isExponentSign?, scanByte?, hbeyond, Option.bind_some, Bool.false_and, if_neg Bool.false_ne_true]

theorem isAscii_isSpecial (hsep : l.separator.toNat < 128) : IsAscii (isSpecial l) := by
  have hsign : IsAscii isSign := fun c hc => by
    simp only [isSign, Bool.or_eq_true, beq_iff_eq] at hc
    rcases hc with (((((((((rfl | rfl) | rfl) | rfl) | rfl) | rfl) | rfl) | rfl) | rfl) | rfl) <;> decide
  have hends : IsAscii (endsOperand l.separator) :=
    isAscii_or (isAscii_or (isAscii_or (isAscii_or isAscii_isSpace hsign) (isAscii_beq (by decide)))
      (isAscii_beq (by decide))) (isAscii_beq hsep)
  refine isAscii_or (isAscii_or (isAscii_or (isAscii_or (isAscii_or (isAscii_or (isAscii_or hends ?_) ?_) ?_) ?_) ?_) ?_) ?_ <;>
    exact isAscii_beq (by decide)

/-- A character beyond ASCII is gathered. -/
theorem step_of_beyond (hsep : l.separator.toNat < 128) (hc : 128 ≤ c.toNat) : step l s c cs = .ok (s.extend [c], 0) :=
  step_extend (Or.inl (Bool.eq_false_iff.mpr fun h => absurd (isAscii_isSpecial hsep c h) (Nat.not_lt.mpr hc)))

/-- The scanner where the lexer stands, but for the bytes up to an offset that it has gathered as well. -/
def State.cursorAt (s : State) (offset : Nat) : Cursor := ⟨offset, s.start, offset, s.openers, s.tokens⟩

theorem State.gather_cursorAt {s : State} {offset : Nat} (h : s.start ≤ offset) (stop : Nat) :
    (s.cursorAt offset).gather stop = s.cursorAt stop := by
  have hfirst : (s.cursorAt offset).first = s.start := by
    show (if s.start < offset then s.start else offset) = s.start
    split <;> omega
  rw [Cursor.gather, hfirst]
  rfl

/-- **A character beyond ASCII is passed byte by byte.** -/
theorem scan?_of_beyond (h : Stands text s before (c :: cs)) (hc : 128 ≤ c.toNat) :
    scan? l text s.cursor = scan? l text (s.extend [c]).cursor := by
  have hstart : s.start ≤ s.offset := by
    rw [h.start, h.offset]
    exact Nat.le_add_right _ _
  have hpass := walk_over (f := fun k => scan? l text (s.cursorAt k)) h.behind fun k hle hk x hx hbyte => by
    have hlt : (s.cursorAt k).offset < (s.cursorAt (k + 1)).offset := Nat.lt_succ_self k
    have hstep : scanStep? l text (s.cursorAt k) = some (.ok ((s.cursorAt k).gather (k + 1))) :=
      scanStep?_of_beyond hbyte (le_of_mem_encode hc hx)
    rw [← h.offset_eq] at hle
    rw [State.gather_cursorAt (Nat.le_trans hstart hle)] at hstep
    have hin : (s.cursorAt k).offset < text.utf8ByteSize := hk
    rw [scan?, if_pos hin, hstep]
    exact if_pos hlt
  have hgather : s.cursorAt (s.offset + byteLength [c]) = (s.extend [c]).cursor :=
    (State.gather_cursorAt hstart _).symm.trans (h.extend (List.singleton_append (x := c) (l := cs)).symm).1
  rw [byteLength_append _ [c], ← h.offset_eq, hgather] at hpass
  exact hpass

/-- At the end of the text. -/
theorem scan?_nil (h : Stands text s before []) :
    scan? l text s.cursor = some ((run l s []).map fun s => s.tokens.reverse) ∧
      ∀ last, run l s [] = .ok last → ∀ t ∈ last.tokens, IsPlaced text t := by
  obtain ⟨hsave, hstands, -⟩ := h.flush l
  have hend : ¬ s.cursor.offset < text.utf8ByteSize := by
    rw [size_of_split h.behind]
    exact Nat.not_lt.mpr (Nat.le_of_eq h.offset_eq.symm)
  rw [scan?, if_neg hend, hsave, run]
  by_cases hopeners : (s.flush l).openers = []
  · rw [if_pos hopeners]
    exact ⟨congrArg some (if_pos hopeners), fun last hlast => Except.ok.inj hlast ▸ hstands.pieces⟩
  · rw [if_neg hopeners]
    exact ⟨congrArg some (if_neg hopeners), fun _ hlast => by cases hlast⟩

/-- Scanner and lexer go on together: both report an error, or both go on from a place further on in the text. -/
theorem goOn (hsep : l.separator.toNat < 128) (h : Stands text s before (c :: cs)) :
    (∃ e, run l s (c :: cs) = .error e ∧ scan? l text s.cursor = some (.error e)) ∨
      ∃ next before rest, rest.length < (c :: cs).length ∧ Stands text next before rest ∧
        run l s (c :: cs) = run l next rest ∧ scan? l text s.cursor = scan? l text next.cursor := by
  rcases Nat.lt_or_ge c.toNat 128 with hc | hc
  · have hfollows := follows_step (l := l) h hc
    have hlt : s.cursor.offset < text.utf8ByteSize := by
      show s.offset < _
      rw [h.offset_eq]
      exact lt_size_of_split h.behind
    generalize hstep : step l s c cs = r at hfollows
    generalize hscan : scanStep? l text s.cursor = answer at hfollows
    cases hfollows with
    | error e =>
      refine Or.inl ⟨e, ?_, ?_⟩
      · rw [run, hstep]
      · rw [scan?, if_pos hlt, hscan]
    | @ok next n before hstands hnext =>
      refine Or.inr ⟨next, before, cs.drop n, ?_, hstands, run_of_step hstep, ?_⟩
      · rw [List.length_drop, List.length_cons]
        omega
      · have hnext : s.cursor.offset < next.cursor.offset := hnext
        rw [scan?, if_pos hlt, hscan]
        exact if_pos hnext
  · exact Or.inr ⟨s.extend [c], before, cs, Nat.lt_succ_self _, (h.extend (List.singleton_append (x := c) (l := cs)).symm).2,
      run_of_step (step_of_beyond hsep hc), scan?_of_beyond h hc⟩

/-- **The walk over bytes is the walk over characters**, and every token is a piece of the text. -/
theorem scan?_eq (hsep : l.separator.toNat < 128) (h : Stands text s before rest) :
    scan? l text s.cursor = some ((run l s rest).map fun s => s.tokens.reverse) ∧
      ∀ last, run l s rest = .ok last → ∀ t ∈ last.tokens, IsPlaced text t := by
  induction hlength : rest.length using Nat.strongRecOn generalizing s before rest with
  | ind length ih =>
    subst hlength
    cases rest with
    | nil => exact scan?_nil h
    | cons c cs =>
      rcases goOn hsep h with ⟨e, hrun, hscan⟩ | ⟨next, before', rest, hshort, hstands, hrun, hscan⟩
      · rw [hrun, hscan]
        exact ⟨rfl, fun _ hlast => by cases hlast⟩
      · rw [hrun, hscan]
        exact ih _ hshort hstands rfl

/-- The lexer stands behind the equals sign at first. -/
theorem stands_start (hs : text.toList = '=' :: cs) : Stands text {} ['='] cs :=
  ⟨hs, rfl, rfl, fun _ ht => absurd ht List.not_mem_nil⟩

/-- A text that is no formula is a piece of itself. -/
theorem isPlaced_literal (text : String) : IsPlaced text ⟨text, .literal, .plain, ⟨0, text.utf8ByteSize⟩⟩ := by
  have hs : text.toList = [] ++ (text.toList ++ []) := (List.append_nil _).symm
  have hslice := slice?_of_split hs
  rw [String.ofList_toList, ← utf8ByteSize_eq] at hslice
  refine ⟨?_, fun hkind => TokenKind.noConfusion hkind⟩
  rw [byteLength, Nat.zero_add] at hslice
  exact hslice

/-- **Splitting a text into tokens byte by byte always has an answer**, that of the lexer, and every token is a piece of
the text. -/
theorem tokenizeBytes?_eq (l : Locale) (text : String) :
    tokenizeBytes? l text = some (tokenize l text) ∧
      ∀ ts, tokenize l text = .ok ts → ∀ t ∈ ts, IsPlaced text t := by
  unfold tokenizeBytes? tokenize
  by_cases hsep : 128 ≤ l.separator.toNat
  · rw [if_pos hsep, if_pos hsep]
    exact ⟨rfl, fun _ h => by cases h⟩
  rw [if_neg hsep, if_neg hsep]
  cases hs : text.toList with
  | nil =>
    rw [if_pos (by rw [utf8ByteSize_eq, hs]; rfl)]
    exact ⟨rfl, fun ts hts t ht => by cases hts; cases ht⟩
  | cons c cs =>
    obtain ⟨x, hx, hbyte⟩ := byte?_head (a := []) hs
    have hpos : 0 < text.utf8ByteSize := lt_size_of_split (a := []) hs
    have hsize : byteLength (c :: cs) = text.utf8ByteSize := by rw [utf8ByteSize_eq, hs]
    have hbyte : byte? text 0 = some x := hbyte
    rw [if_neg (Nat.ne_of_gt hpos), hbyte, Option.bind_some, isAsciiOf_of_mem_encode (isAscii_beq (by decide)) hx]
    dsimp only
    by_cases hc : c = '='
    · subst hc
      obtain ⟨hscan, hpieces⟩ := scan?_eq (Nat.lt_of_not_le hsep) (stands_start hs)
      rw [if_pos (beq_self_eq_true '='), if_pos rfl]
      refine ⟨hscan, fun ts hts t ht => ?_⟩
      cases hrun : run l {} cs with
      | error e =>
        rw [hrun] at hts
        cases hts
      | ok last =>
        rw [hrun] at hts
        cases hts
        exact hpieces last hrun t (List.mem_reverse.mp ht)
    · rw [if_neg (mt beq_iff_eq.mp hc), if_neg hc, hsize]
      refine ⟨rfl, fun ts hts t ht => ?_⟩
      cases hts
      rw [List.mem_singleton.mp ht]
      exact isPlaced_literal text

end Walk

end Spreadsheet.Lexer
