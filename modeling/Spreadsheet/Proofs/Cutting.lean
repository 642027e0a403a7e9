import Spreadsheet.Proofs.Following
import Spreadsheet.Proofs.Mentions

/-!
# Cutting: the parser takes the texts of tokens apart at bytes

The parser cuts quotes and parentheses off the texts of tokens, and looks for the parts of references in them. Here it
does so at byte offsets, and has no answer where a cut is outside of the text or inside a character.

* `Expr.ofOperand?_eq` — the leaf that an operand stands for is found, whatever its text is.
* `Expr.functionName?_eq` — so is the name of a function, as the token ends in a parenthesis.
* `Expr.parse?_eq` — there is always an answer, and it is that of the parser.
* `Expr.parse_staysInside` — this, together with what is known about the tokens.
-/

namespace Spreadsheet

open Text Grid

/-! ### Quotes around names -/

/-- Takes the quotes off a name, from behind the opening one. The part of the text that no doubled quote has cut off
yet begins at `segment`. None if the name is not closed; then the name and what stands behind it. -/
def unescape? (inner name : String) (segment i : Nat) : Option (Option (String × String)) :=
  if i < inner.utf8ByteSize then
    match byte? inner i with
    | none => none
    | some x =>
      if isAsciiOf (· == '\'') x then
        if (byte? inner (i + 1)).any (isAsciiOf (· == '\'')) then
          match slice? inner segment (i + 1) with
          | none => none
          | some piece => unescape? inner (name ++ piece) (i + 2) (i + 2)
        else
          (slice? inner segment i).bind fun piece =>
            (slice? inner (i + 1) inner.utf8ByteSize).map fun behind => some (name ++ piece, behind)
      else unescape? inner name segment (i + 1)
  else some none
termination_by inner.utf8ByteSize - i

section Unescape

variable {inner : String} {a b piece cs : List Char}

theorem unescape?_over {name : String} {segment : Nat} {c : Char} (hs : inner.toList = a ++ c :: cs) (hc : c ≠ '\'') :
    unescape? inner name segment (byteLength a) = unescape? inner name segment (byteLength (a ++ [c])) :=
  walk_over (f := unescape? inner name segment) hs fun k _ hk x hx hbyte => by
    rw [unescape?, if_pos hk, hbyte]
    dsimp only
    rw [isAsciiOf_of_mem_encode (Lexer.isAscii_beq (by decide)) hx, if_neg (mt beq_iff_eq.mp hc)]

/-- Whether a quote stands at an offset. -/
theorem any_quote (hs : inner.toList = a ++ cs) :
    (byte? inner (byteLength a)).any (isAsciiOf (· == '\'')) = (cs.head? == some '\'') := by
  cases cs with
  | nil =>
    have hend : byte? inner (byteLength a) = none := by
      rw [byte?, List.getElem?_eq_none_iff, length_bytes, size_of_split hs]
      exact Nat.le_refl _
    rw [hend]
    rfl
  | cons c cs =>
    obtain ⟨x, hx, hbyte⟩ := byte?_head hs
    rw [hbyte, Option.any_some, isAsciiOf_of_mem_encode (Lexer.isAscii_beq (by decide)) hx]
    rfl

/-- **A quoted name is read by cutting segments out of the text.** -/
theorem unescape?_eq (hs : inner.toList = a ++ (piece ++ cs)) (name : String) :
    unescape? inner name (byteLength a) (byteLength (a ++ piece)) =
      some ((readQuoted cs).map fun r => (name ++ String.ofList (piece ++ r.1), String.ofList r.2)) := by
  have hquote : '\''.toNat < 128 := by decide
  -- `piece` is what the name has since the last doubled quote: it grows by a character, or is cut off
  induction cs using readQuoted.induct generalizing a piece name with
  | case1 =>
    have hend : inner.utf8ByteSize = byteLength (a ++ piece) := by
      rw [utf8ByteSize_eq, hs, List.append_nil]
    rw [unescape?, if_neg (by omega)]
    rfl
  | case2 cs ih =>
    have hs₁ : inner.toList = (a ++ piece) ++ '\'' :: '\'' :: cs := by rw [hs, List.append_assoc]
    have hs₂ : inner.toList = ((a ++ piece) ++ ['\'']) ++ '\'' :: cs := hs₁.trans (List.append_cons _ _ _)
    have hs₃ : inner.toList = (((a ++ piece) ++ ['\'']) ++ ['\'']) ++ ([] ++ cs) := hs₂.trans (List.append_cons _ _ _)
    obtain ⟨⟨x, hbyte, hx⟩, hnext⟩ := Lexer.isAsciiOf_self hquote hs₁
    have hnext' := (Lexer.isAsciiOf_self hquote hs₂).2
    have hany := any_quote hs₂
    have hih := ih hs₃ (name ++ String.ofList (piece ++ ['\'']))
    have hcut := slice?_of_split (b := piece ++ ['\'']) (hs.trans (congrArg (a ++ ·) (List.append_cons _ _ _)))
    rw [← byteLength_append, ← List.append_assoc, hnext] at hcut
    rw [List.append_nil, hnext', hnext] at hih
    rw [hnext] at hany
    rw [unescape?, if_pos (lt_size_of_split hs₁), hbyte]
    dsimp only
    rw [if_pos hx, hany, List.head?_cons, if_pos (beq_self_eq_true (some '\'')), hcut]
    dsimp only
    rw [hih, readQuoted, Option.map_map]
    refine congrArg some (congrFun (congrArg Option.map (funext fun r => ?_)) _)
    have hjoin : name ++ String.ofList (piece ++ ['\'']) ++ String.ofList ([] ++ r.1) =
        name ++ String.ofList (piece ++ '\'' :: r.1) := by
      rw [String.append_assoc, ← String.ofList_append, List.append_assoc]
      rfl
    exact congrArg (·, String.ofList r.2) hjoin
  | case3 cs hne =>
    have hs₁ : inner.toList = (a ++ piece) ++ '\'' :: cs := by rw [hs, List.append_assoc]
    have hs₂ : inner.toList = ((a ++ piece) ++ ['\'']) ++ cs := hs₁.trans (List.append_cons _ _ _)
    obtain ⟨⟨x, hbyte, hx⟩, hnext⟩ := Lexer.isAsciiOf_self hquote hs₁
    have hany := any_quote hs₂
    have hhead : cs.head? ≠ some '\'' := fun hhead => by
      obtain ⟨cs', hcs⟩ := List.head?_eq_some_iff.mp hhead
      exact hne cs' hcs
    have hbehind := slice?_end hs₂
    have hcut := slice?_of_split hs
    rw [← byteLength_append] at hcut
    rw [hnext] at hany hbehind
    rw [unescape?, if_pos (lt_size_of_split hs₁), hbyte]
    dsimp only
    rw [if_pos hx, hany, if_neg (mt beq_iff_eq.mp hhead), hcut, hbehind, readQuoted_close hhead, Option.bind_some,
      Option.map_some, Option.map_some, List.append_nil]
  | case4 c cs hne hne' ih =>
    have hc : c ≠ '\'' := hne'
    have hs₁ : inner.toList = (a ++ piece) ++ c :: cs := by rw [hs, List.append_assoc]
    have hs₂ : inner.toList = a ++ ((piece ++ [c]) ++ cs) := by
      rw [hs, List.append_assoc, List.singleton_append]
    have hih := ih hs₂ name
    rw [← List.append_assoc] at hih
    rw [unescape?_over hs₁ hc, hih, readQuoted_cons_of_ne hc, Option.map_map]
    refine congrArg some (congrFun (congrArg Option.map (funext fun r => ?_)) _)
    rw [List.append_assoc, List.singleton_append]
    rfl

end Unescape

/-! ### References -/

/-- Splits the qualifier off the text of a reference, cutting a quoted one out of it. -/
def splitQualifier? (text : String) : Option (Except ReferenceError Qualified) :=
  if text.toList.head? = some '\'' then
    (unescape? (String.ofList text.toList.tail) "" 0 0).map fun
      | none => .error (.invalid text)
      | some (name, behind) =>
        if behind.toList.head? = some '!' then
          if name ≠ "" then .ok (.address (some name) behind.toList.tail) else .error (.invalid text)
        else if behind = "" then .ok (.quotedName name)
        else .error (.invalid text)
  else some (splitQualifier text.toList)

theorem splitQualifier?_eq (text : String) : splitQualifier? text = some (splitQualifier text.toList) := by
  unfold splitQualifier?
  by_cases hquote : text.toList.head? = some '\''
  · obtain ⟨inner, hinner⟩ := List.head?_eq_some_iff.mp hquote
    have hs : (String.ofList inner).toList = [] ++ ([] ++ inner) := String.toList_ofList
    have hunescape : unescape? (String.ofList inner) "" 0 0 =
        some ((readQuoted inner).map fun r => ("" ++ String.ofList ([] ++ r.1), String.ofList r.2)) :=
      unescape?_eq hs ""
    have htext : text = String.ofList ('\'' :: inner) := by rw [← hinner, String.ofList_toList]
    rw [if_pos hquote, hinner, List.tail_cons, hunescape, Option.map_some, htext]
    refine congrArg some ?_
    cases hread : readQuoted inner with
    | none =>
      rw [splitQualifier, hread]
      rfl
    | some r =>
      obtain ⟨name, rest⟩ := r
      have hname : "" ++ String.ofList ([] ++ name) = String.ofList name := String.empty_append
      have hempty : String.ofList name ≠ "" ↔ name ≠ [] := not_congr String.ofList_eq_empty_iff
      rw [Option.map_some, splitQualifier, hread]
      dsimp only
      rw [hname, String.toList_ofList]
      cases rest with
      | nil => rfl
      | cons c rest =>
        by_cases hc : c = '!'
        · rw [List.head?_cons, if_pos (congrArg some hc)]
          by_cases hne : name = []
          · rw [if_neg (mt hempty.mp (not_not.mpr hne))]
            exact (if_neg fun h => h.2 hne).symm
          · rw [if_pos (hempty.mpr hne)]
            exact (if_pos ⟨hc, hne⟩).symm
        · have hrest : String.ofList (c :: rest) ≠ "" := fun heq => List.cons_ne_nil _ _ (String.ofList_eq_empty_iff.mp heq)
          rw [List.head?_cons, if_neg fun heq => hc (Option.some.inj heq), if_neg hrest]
          exact (if_neg fun h => hc h.1).symm
  · rw [if_neg hquote]

namespace Reference

/-- Reads the text of a reference, with every address read byte by byte. -/
def scan? (text : String) : Option (Except ReferenceError Reference) :=
  (splitQualifier? text).bind fun
    | .error e => some (.error e)
    | .ok (.quotedName inner) => some (if inner ≠ "" then .ok (.name inner) else .error (.invalid text))
    | .ok (.address sheet rest) =>
      let left := String.ofList (rest.takeWhile (· ≠ ':'))
      match rest.dropWhile (· ≠ ':') with
      | _ :: second =>
        (splitQualifier? (String.ofList second)).bind fun
          | .error e => some (.error e)
          | .ok (.quotedName _) => some (.error (.invalid text))
          | .ok (.address other right) =>
            if qualifierAgrees sheet other then
              (Address.scan? left).bind fun
                | .error _ => some (.error (.invalid text))
                | .ok a => (Address.scan? (String.ofList right)).map fun
                  | .error _ => .error (.invalid text)
                  | .ok b => .ok (.range sheet a b)
            else some (.error (.invalid text))
      | [] => (Address.scan? left).map fun
        | .ok a => .ok (.cell sheet a)
        | .error _ => if sheet = none ∧ isPlainName left then .ok (.name left) else .error (.invalid text)

/-- **A reference can be read byte by byte.** -/
theorem scan?_eq (text : String) : scan? text = some (parse text) := by
  unfold scan? parse
  rw [splitQualifier?_eq, Option.bind_some]
  cases splitQualifier text.toList with
  | error e => rfl
  | ok q =>
    cases q with
    | quotedName inner => rfl
    | address sheet rest =>
      dsimp only
      cases rest.dropWhile (· ≠ ':') with
      | nil =>
        rw [Address.scan?_eq]
        rfl
      | cons c second =>
        dsimp only
        rw [splitQualifier?_eq, String.toList_ofList, Option.bind_some]
        cases splitQualifier second with
        | error e => rfl
        | ok q =>
          cases q with
          | quotedName inner => rfl
          | address other right =>
            dsimp only
            split
            · rw [Address.scan?_eq, Address.scan?_eq, Option.bind_some]
              cases Address.parse (String.ofList (rest.takeWhile (· ≠ ':'))) with
              | error e => rfl
              | ok a =>
                dsimp only
                rw [Option.map_some]
                cases Address.parse (String.ofList right) <;> rfl
            · rfl

end Reference

/-! ### Leaves -/

namespace Expr

/-- The text that a quoted literal stands for, cut out between its quotes. -/
def unquote? (s : String) : Option String :=
  if s.toList.head? = some '"' ∧ s.toList.getLast? = some '"' ∧ 2 ≤ s.utf8ByteSize then
    (slice? s 1 (s.utf8ByteSize - 1)).map fun inner => String.ofList (singleQuotes inner.toList)
  else some s

theorem unquote_of_quoted {s : String} {mid : List Char} (hs : s.toList = '"' :: (mid ++ ['"'])) :
    unquote s = String.ofList (singleQuotes mid) := by
  unfold unquote
  split
  · next cs heq =>
    have hcs : cs = mid ++ ['"'] := (List.cons.inj (heq.symm.trans hs)).2
    rw [hcs, List.getLast?_concat, if_pos rfl, List.dropLast_concat]
  · next hother => exact absurd hs (hother _)

theorem unquote_of_not_quoted {s : String} (hs : ∀ mid, s.toList ≠ '"' :: (mid ++ ['"'])) : unquote s = s := by
  unfold unquote
  split
  · next cs heq =>
    refine if_neg fun hlast => ?_
    obtain ⟨mid, hmid⟩ := List.getLast?_eq_some_iff.mp hlast
    exact hs mid (heq.trans (congrArg _ hmid))
  · rfl

theorem unquote?_eq (s : String) : unquote? s = some (unquote s) := by
  have hquote : byteLength ['"'] = 1 := rfl
  by_cases hquoted : ∃ mid, s.toList = '"' :: (mid ++ ['"'])
  · obtain ⟨mid, hmid⟩ := hquoted
    have hs : s.toList = ['"'] ++ (mid ++ ['"']) := hmid
    have hsize := size_of_split hs
    rw [byteLength_append, hquote] at hsize
    have hlast : s.toList.getLast? = some '"' := by
      rw [hs, ← List.append_assoc, List.getLast?_concat]
    have hcut := slice?_of_split hs
    rw [hquote] at hcut
    have hend : s.utf8ByteSize - 1 = 1 + byteLength mid := by omega
    rw [unquote?, if_pos ⟨by rw [hmid]; rfl, hlast, by omega⟩, hend, hcut, Option.map_some, String.toList_ofList,
      unquote_of_quoted hmid]
  · rw [unquote_of_not_quoted fun mid hmid => hquoted ⟨mid, hmid⟩, unquote?]
    refine if_neg ?_
    rintro ⟨hfirst, hlast, hsize⟩
    obtain ⟨cs, hcs⟩ := List.head?_eq_some_iff.mp hfirst
    obtain ⟨ds, hds⟩ := List.getLast?_eq_some_iff.mp hlast
    cases ds with
    | nil =>
      rw [utf8ByteSize_eq, hds] at hsize
      exact absurd hsize (by decide)
    | cons d ds =>
      rw [hds, List.cons_append] at hcs
      exact hquoted ⟨ds, by rw [hds, List.cons_append, (List.cons.inj hcs).1]⟩

/-- The text from the mark of an error code on; the whole text if it has none. -/
def codePart? (s : String) : Option String :=
  if '#' ∈ s.toList then slice? s (byteLength (s.toList.takeWhile (· ≠ '#'))) s.utf8ByteSize else some s

theorem codePart?_eq (s : String) : codePart? s =
    some (if s.toList.dropWhile (· ≠ '#') = [] then s else String.ofList (s.toList.dropWhile (· ≠ '#'))) := by
  have hmark : s.toList.dropWhile (· ≠ '#') = [] ↔ '#' ∉ s.toList := by
    rw [List.dropWhile_eq_nil_iff]
    exact ⟨fun h hmem => absurd rfl (of_decide_eq_true (h '#' hmem)), fun h c hc => decide_eq_true fun heq => h (heq ▸ hc)⟩
  unfold codePart?
  by_cases h : '#' ∈ s.toList
  · rw [if_pos h, if_neg (mt hmark.mp (not_not.mpr h))]
    exact slice?_end List.takeWhile_append_dropWhile.symm
  · rw [if_neg h, if_pos (hmark.mpr h)]

/-- The error that a code in a formula stands for, the code being cut out of its text. -/
def errorCut? (s : String) : Option (Option ErrorValue) :=
  (codePart? s).map fun code => (ErrorValue.ofCode? code).map fun e =>
    if e.kind = .invalidReference then Cause.deletedReference.toError else e

theorem errorCut?_eq (s : String) : errorCut? s = some (errorLiteral? s) := by
  rw [errorCut?, codePart?_eq]
  rfl

/-- The leaf that an operand stands for, its text taken apart at bytes. -/
def ofOperand? (l : Locale) (t : Token) : Option (Except ParseError Expr) :=
  match t.role with
  | .text => (unquote? t.text).map fun s => .ok (.literal (some t.span) (.text s))
  | .error =>
    (errorCut? t.text).map fun
      | some e => .ok (.literal (some t.span) (.error e))
      | none => .error (.unknownErrorCode t.text t.span.start)
  | .range =>
    (Reference.scan? t.text).map fun
      | .ok r => .ok (.reference (some t.span) t.text r)
      | .error e => .error (.invalidReference t.text e t.span.start)
  | _ => some (ofOperand l t)

/-- **The leaf of an operand is found**, whatever the text of the operand is. -/
theorem ofOperand?_eq (l : Locale) (t : Token) : ofOperand? l t = some (ofOperand l t) := by
  unfold ofOperand? ofOperand
  cases t.role with
  | text => exact congrArg (Option.map _) (unquote?_eq t.text)
  | error =>
    refine (congrArg (Option.map _) (errorCut?_eq t.text)).trans ?_
    cases errorLiteral? t.text <;> rfl
  | range =>
    refine (congrArg (Option.map _) (Reference.scan?_eq t.text)).trans ?_
    cases Reference.parse t.text <;> rfl
  | _ => rfl

/-- The name of a function, the last byte being cut off the text that opens the call. -/
def functionName? (t : Token) : Option String :=
  if t.text.utf8ByteSize = 0 then none else slice? t.text 0 (t.text.utf8ByteSize - 1)

/-- **The name of a function is found**, as a parenthesis stands behind it. -/
theorem functionName?_eq {t : Token} (h : ∃ name, t.text.toList = name ++ ['(']) :
    functionName? t = some (functionName t) := by
  obtain ⟨name, hname⟩ := h
  have hs : t.text.toList = [] ++ (name ++ ['(']) := hname
  have hsize : t.text.utf8ByteSize = byteLength name + 1 := size_of_split hname
  have hcut := slice?_of_split hs
  rw [byteLength, Nat.zero_add] at hcut
  rw [functionName?, if_neg (by omega), hsize, Nat.add_sub_cancel, hcut, functionName, hname, List.dropLast_concat]

/-! ### Trees -/

/-- Goes on with what was read, if there is an answer and it is no error. -/
def goOn? {α β : Type} (answer : Option (Except ParseError α)) (next : α → Option (Except ParseError β)) :
    Option (Except ParseError β) :=
  answer.bind fun
    | .error e => some (.error e)
    | .ok a => next a

theorem goOn?_ok {α β : Type} (a : α) (next : α → Option (Except ParseError β)) :
    goOn? (some (.ok a)) next = next a := rfl

/-- Behind an operator and its right operand, no more tokens are left than there were before the operator. -/
theorem length_le_of_rest {t : Token} {ts rest rest' : List Token} (h : rest.length < ts.length)
    (h' : rest'.length ≤ rest.length) : rest'.length ≤ (t :: ts).length :=
  Nat.le_trans h' (Nat.le_trans (Nat.le_of_lt h) (Nat.le_succ _))

mutual

/-- Reads operands joined by operators that bind at least as strongly as `least`. -/
def readBinary? (r : Reading) (least : Nat) (ts : List Token) : Option (ReadFrom Expr ts) :=
  goOn? (readSigned? r ts) fun (left, ⟨rest, h⟩) =>
    goOn? (climb? r least left rest) fun (x, ⟨rest', h'⟩) => some (.ok (x, ⟨rest', by omega⟩))
termination_by 7 * ts.length + 4

/-- Goes on behind a left operand, as long as an operator follows that binds strongly enough. -/
def climb? (r : Reading) (least : Nat) (left : Expr) (ts : List Token) :
    Option (Except ParseError (Expr × { rest : List Token // rest.length ≤ ts.length })) :=
  match ts with
  | [] => some (.ok (left, ⟨[], Nat.le_refl _⟩))
  | t :: rest =>
    let strength := t.strength?.getD ⟨0, .left⟩
    if t.kind ≠ .infixSign ∨ strength.level < least then some (.ok (left, ⟨t :: rest, Nat.le_refl _⟩))
    else
      goOn? (readBinary? r (if strength.grouping = .left then strength.level + 1 else strength.level) rest)
          fun (right, ⟨rest', h⟩) =>
        goOn? (climb? r least (.binary (some t.span) (.ofSymbol t.text) left right) rest') fun (x, ⟨rest'', h'⟩) =>
          some (.ok (x, ⟨rest'', length_le_of_rest h h'⟩))
termination_by 7 * ts.length + 0

/-- Reads an operand with the signs in front of it. -/
def readSigned? (r : Reading) (ts : List Token) : Option (ReadFrom Expr ts) :=
  match ts with
  | t :: rest =>
    if t.kind = .prefixSign then
      goOn? (readSigned? r rest) fun (x, ⟨rest', h⟩) =>
        some (.ok (.unary (some t.span) (.ofSymbol t.text) x, ⟨rest', by simp only [List.length_cons]; omega⟩))
    else readPostfixed? r (t :: rest)
  | [] => readPostfixed? r []
termination_by 7 * ts.length + 3

/-- Reads an operand with the percent signs behind it. -/
def readPostfixed? (r : Reading) (ts : List Token) : Option (ReadFrom Expr ts) :=
  goOn? (readPrimary? r ts) fun (x, ⟨rest, h⟩) =>
    let result := applyPostfixes x rest
    some (.ok (result.1, ⟨result.2, Nat.lt_of_le_of_lt (length_applyPostfixes x rest) h⟩))
termination_by 7 * ts.length + 2

/-- Reads a leaf, a group in parentheses or a call. -/
def readPrimary? (r : Reading) (ts : List Token) : Option (ReadFrom Expr ts) :=
  match ts with
  | [] => some (.error (.unexpectedEnd r.lastStop))
  | t :: rest =>
    if t.kind = .operand then
      goOn? (ofOperand? r.locale t) fun x => some (.ok (x, ⟨rest, by simp⟩))
    else if t.kind = .call ∧ t.role = .opening then
      (functionName? t).bind fun name =>
        if atCallEnd rest then
          some (.ok (.call (some t.span) name [],
            ⟨rest.tail, by simp only [List.length_tail, List.length_cons]; omega⟩))
        else
          goOn? (readArguments? r rest) fun (xs, ⟨rest', h⟩) =>
            some (.ok (.call (some t.span) name xs, ⟨rest', by simp only [List.length_cons]; omega⟩))
    else if t.kind = .group ∧ t.role = .opening then
      goOn? (readBinary? r 0 rest) fun (x, ⟨rest', h⟩) =>
        match rest' with
        | [] => some (.error (.unclosedGroup none))
        | c :: rest'' =>
          if c.kind = .group ∧ c.role = .closing then
            some (.ok (x, ⟨rest'', by simp only [List.length_cons] at h ⊢; omega⟩))
          else some (.error (.unclosedGroup (some c.span.start)))
    else some (.error (.unexpectedToken t.text t.span.start))
termination_by 7 * ts.length + 1

/-- Reads one argument or more, up to and including the parenthesis that closes the call. -/
def readArguments? (r : Reading) (ts : List Token) : Option (ReadFrom (List Expr) ts) :=
  if atSeparator ts || atCallEnd ts then afterArgument? r omitted ts ts (Nat.le_refl _)
  else
    goOn? (readBinary? r 0 ts) fun (x, ⟨rest, h⟩) => afterArgument? r x ts rest (Nat.le_of_lt h)
termination_by 7 * ts.length + 6

/-- Goes on behind an argument: with the next one, or with the end of the call. -/
def afterArgument? (r : Reading) (x : Expr) (ts rest : List Token) (h : rest.length ≤ ts.length) :
    Option (ReadFrom (List Expr) ts) :=
  match rest with
  | [] => some (.error (.unclosedCall r.locale.separator none))
  | t :: rest' =>
    if atSeparator (t :: rest') then
      goOn? (readArguments? r rest') fun (xs, ⟨rest'', h'⟩) =>
        some (.ok (x :: xs, ⟨rest'', by simp only [List.length_cons] at h; omega⟩))
    else if atCallEnd (t :: rest') then
      some (.ok ([x], ⟨rest', by simp only [List.length_cons] at h; omega⟩))
    else some (.error (.unclosedCall r.locale.separator (some t.span.start)))
termination_by 7 * rest.length + 5

end

/-- Every token that opens a call ends in the parenthesis. -/
def HasNames (ts : List Token) : Prop :=
  ∀ t ∈ ts, t.kind = .call → t.role = .opening → ∃ name, t.text.toList = name ++ ['(']

theorem HasNames.mono {ts rest : List Token} (h : HasNames ts) (hrest : ∀ t ∈ rest, t ∈ ts) : HasNames rest :=
  fun t ht => h t (hrest t ht)

theorem HasNames.tail {t : Token} {ts : List Token} (h : HasNames (t :: ts)) : HasNames ts :=
  h.mono fun _ => List.mem_cons_of_mem t

mutual

theorem readBinary?_eq (r : Reading) {ts : List Token} (h : HasNames ts) (least : Nat) :
    readBinary? r least ts = some (readBinary r least ts) := by
  rw [readBinary?, readBinary, readSigned?_eq r h]
  cases hleft : readSigned r ts with
  | error e => rfl
  | ok read =>
    obtain ⟨left, rest, hlen⟩ := read
    rw [goOn?_ok]
    dsimp only
    rw [climb?_eq r (h.mono (stems_readSigned hleft).remain) least left]
    cases climb r least left rest <;> rfl
termination_by (ts.length, 4)

theorem climb?_eq (r : Reading) {ts : List Token} (h : HasNames ts) (least : Nat) (left : Expr) :
    climb? r least left ts = some (climb r least left ts) := by
  match ts with
  | [] => rw [climb?, climb]
  | t :: rest =>
    rw [climb?, climb]
    dsimp only
    split
    · rfl
    · rw [readBinary?_eq r h.tail]
      cases hright : readBinary r (if (t.strength?.getD ⟨0, .left⟩).grouping = .left then
          (t.strength?.getD ⟨0, .left⟩).level + 1 else (t.strength?.getD ⟨0, .left⟩).level) rest with
      | error e => rfl
      | ok read =>
        obtain ⟨right, rest', hlen⟩ := read
        rw [goOn?_ok]
        dsimp only
        rw [climb?_eq r (h.tail.mono (stems_readBinary hright).remain)]
        cases climb r least (.binary (some t.span) (.ofSymbol t.text) left right) rest' <;> rfl
termination_by (ts.length, 0)

theorem readSigned?_eq (r : Reading) {ts : List Token} (h : HasNames ts) :
    readSigned? r ts = some (readSigned r ts) := by
  match ts with
  | [] =>
    rw [readSigned?, readSigned]
    exact readPostfixed?_eq r h
  | t :: rest =>
    rw [readSigned?, readSigned]
    split
    · rw [readSigned?_eq r h.tail]
      cases readSigned r rest <;> rfl
    · exact readPostfixed?_eq r h
termination_by (ts.length, 3)

theorem readPostfixed?_eq (r : Reading) {ts : List Token} (h : HasNames ts) :
    readPostfixed? r ts = some (readPostfixed r ts) := by
  rw [readPostfixed?, readPostfixed, readPrimary?_eq r h]
  cases readPrimary r ts <;> rfl
termination_by (ts.length, 2)

theorem readPrimary?_eq (r : Reading) {ts : List Token} (h : HasNames ts) :
    readPrimary? r ts = some (readPrimary r ts) := by
  match ts with
  | [] => rw [readPrimary?, readPrimary]
  | t :: rest =>
    rw [readPrimary?, readPrimary]
    split
    · rw [ofOperand?_eq]
      cases ofOperand r.locale t <;> rfl
    · split
      · next hcall =>
        rw [functionName?_eq (h t List.mem_cons_self hcall.1 hcall.2), Option.bind_some]
        split
        · rfl
        · rw [readArguments?_eq r h.tail]
          cases readArguments r rest <;> rfl
      · split
        · rw [readBinary?_eq r h.tail]
          cases readBinary r 0 rest with
          | error e => rfl
          | ok read =>
            obtain ⟨x, rest', hlen⟩ := read
            rw [goOn?_ok]
            cases rest' with
            | nil => rfl
            | cons c rest'' =>
              dsimp only
              split <;> rfl
        · rfl
termination_by (ts.length, 1)

theorem readArguments?_eq (r : Reading) {ts : List Token} (h : HasNames ts) :
    readArguments? r ts = some (readArguments r ts) := by
  rw [readArguments?, readArguments]
  split
  · exact afterArgument?_eq r omitted h _
  · rw [readBinary?_eq r h]
    cases hargument : readBinary r 0 ts with
    | error e => rfl
    | ok read =>
      obtain ⟨x, rest, hlen⟩ := read
      exact afterArgument?_eq r x (h.mono (stems_readBinary hargument).remain) _
termination_by (ts.length, 6)

theorem afterArgument?_eq (r : Reading) (x : Expr) {ts rest : List Token} (h : HasNames rest)
    (hle : rest.length ≤ ts.length) : afterArgument? r x ts rest hle = some (afterArgument r x ts rest hle) := by
  match rest with
  | [] => rw [afterArgument?, afterArgument]
  | t :: rest' =>
    rw [afterArgument?, afterArgument]
    split
    · rw [readArguments?_eq r h.tail]
      cases readArguments r rest' <;> rfl
    · split <;> rfl
termination_by (rest.length, 5)

end

/-- The tree of a list of tokens; blanks among them do not matter. -/
def ofTokens? (l : Locale) (tokens : List Token) : Option (Except ParseError Expr) :=
  let ts := tokens.filter fun t => t.kind != .blank
  match ts with
  | [] => some (.error .emptyFormula)
  | t :: _ =>
    if t.kind = .literal then some (.ok (.literal (some t.span) (.text t.text)))
    else
      goOn? (readBinary? ⟨l, ts.getLast?.map fun t => t.span.stop⟩ 0 ts) fun (x, ⟨rest, _⟩) =>
        match rest with
        | [] => some (.ok x)
        | t :: _ => some (.error (.unexpectedToken t.text t.span.start))

/-- The tree of a text, which is taken apart byte by byte. -/
def parse? (l : Locale) (text : String) : Option (Except ParseError Expr) :=
  (Lexer.tokenizeBytes? l text).bind fun
    | .error e => some (.error (.lexical e))
    | .ok tokens => ofTokens? l tokens

theorem ofTokens?_eq (l : Locale) {tokens : List Token} (h : HasNames tokens) :
    ofTokens? l tokens = some (ofTokens l tokens) := by
  have hnames : HasNames (tokens.filter fun t => t.kind != .blank) := h.mono fun t ht => (List.mem_filter.mp ht).1
  unfold ofTokens? ofTokens
  dsimp only
  cases hts : tokens.filter fun t => t.kind != .blank with
  | nil => rfl
  | cons t ts =>
    rw [hts] at hnames
    dsimp only
    split
    · rfl
    · rw [readBinary?_eq _ hnames]
      cases readBinary ⟨l, (t :: ts).getLast?.map fun t => t.span.stop⟩ 0 (t :: ts) with
      | error e => rfl
      | ok read =>
        obtain ⟨x, rest, hlen⟩ := read
        rw [goOn?_ok]
        cases rest <;> rfl

/-- **Parsing always has an answer.** -/
theorem parse?_eq (l : Locale) (text : String) : parse? l text = some (parse l text) := by
  obtain ⟨htokens, hpieces⟩ := Lexer.tokenizeBytes?_eq l text
  rw [parse?, htokens, Option.bind_some, parse]
  cases htokenize : tokenize l text with
  | error e => rfl
  | ok ts => exact ofTokens?_eq l fun t ht => (hpieces ts htokenize t ht).opens

/-- **Parsing stays inside of the text.** Whatever the text and the separators of the locale are, splitting the text
into tokens byte by byte comes to its end, asks for no byte that is missing and makes no cut inside a character. The
start and the stop of a token are places in the text between characters, in this order, and the token is what stands
between them. And the tokens are read without a cut outside of their texts or inside a character, to a tree or a parse
error. -/
theorem parse_staysInside (l : Locale) (text : String) :
    Lexer.tokenizeBytes? l text = some (tokenize l text) ∧
      (∀ ts, tokenize l text = .ok ts → ∀ t ∈ ts,
        t.span.start ≤ t.span.stop ∧ t.span.stop ≤ text.utf8ByteSize ∧
          String.Pos.Raw.IsValid text ⟨t.span.start⟩ ∧ String.Pos.Raw.IsValid text ⟨t.span.stop⟩ ∧
          slice? text t.span.start t.span.stop = some t.text) ∧
      parse? l text = some (parse l text) := by
  obtain ⟨htokens, hpieces⟩ := Lexer.tokenizeBytes?_eq l text
  refine ⟨htokens, fun ts hts t ht => ?_, parse?_eq l text⟩
  have hslice := (hpieces ts hts t ht).slice
  obtain ⟨hle, hsize, hstart, hstop⟩ := slice?_eq_some hslice
  exact ⟨hle, hsize, hstart, hstop, hslice⟩

/-- Letters of two bytes, under a locale with one as its decimal mark and with a quote as its separator. -/
theorem parse_staysInside_umlauts : ∃ ts, tokenize ⟨'ß', '"'⟩ "=ä(\"ö\")" = .ok ts ∧
    ts.map Token.span = [⟨1, 4⟩, ⟨4, 8⟩, ⟨8, 9⟩] ∧
      ∀ t ∈ ts, slice? "=ä(\"ö\")" t.span.start t.span.stop = some t.text := by
  have htokens : tokenize ⟨'ß', '"'⟩ "=ä(\"ö\")" = .ok [⟨"ä(", .call, .opening, ⟨1, 4⟩⟩,
      ⟨"\"ö\"", .operand, .text, ⟨4, 8⟩⟩, ⟨")", .call, .closing, ⟨8, 9⟩⟩] := by decide +kernel
  refine ⟨_, htokens, rfl, fun t ht => ?_⟩
  exact ((parse_staysInside ⟨'ß', '"'⟩ "=ä(\"ö\")").2.1 _ htokens t ht).2.2.2.2

end Expr

end Spreadsheet
