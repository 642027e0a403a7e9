import Spreadsheet.Proofs.Arising
import Spreadsheet.Proofs.Substituting

/-!
# Literals: no edit writes the error of another cell into a formula

A formula may have the code of an error as a literal. That of an error in another cell is the only one that tells
of a cell without reading it. It does not come into a formula by itself:

* `hasReferencedCode_editReferences` — a formula without this code has none after an edit of its references, in
  every locale, and whether or not its text is a formula that can be read;
* `Expr.isPlain_of_parse` — then no literal of its tree is such an error.

Tokens may grow together in an edit, so the proof goes by the characters. `Lexer.Clean` says that quotes are
closed in a text and that it has no such code outside of them. The lexer takes such a text apart into such texts
(`Lexer.Spells`), an edit puts such texts together, and the lexer finds no such code in the result (`Lexer.Coded`).
Both are kept by each step of the lexer (`Lexer.holds_of_run`), and `Lexer.Takes` says what one step can do.
-/

namespace Spreadsheet

/-- The code of an error in another cell, in lower case. -/
def referencedCode : List Char := ErrorKind.referencedCell.code.toList.map Char.toLower

/-- Whether a token is the code of an error in another cell, maybe behind a qualifier. -/
def Token.isReferencedCode (t : Token) : Bool :=
  t.role == .error && referencedCode.isSuffixOf (t.text.toList.map Char.toLower)

/-- Whether a formula has the code of an error in another cell as a literal. -/
def hasReferencedCode (l : Locale) (text : String) : Bool :=
  match tokenize l text with
  | .ok ts => ts.any Token.isReferencedCode
  | .error _ => false

theorem Token.isReferencedCode_iff {t : Token} :
    t.isReferencedCode = true ↔ t.role = .error ∧ referencedCode <:+ t.text.toList.map Char.toLower := by
  unfold isReferencedCode
  rw [Bool.and_eq_true, beq_iff_eq, List.isSuffixOf_iff_suffix]

namespace Lexer

variable {l : Locale}

/-! ### Clean texts -/

/-- A character that neither opens a quote nor begins the code of an error. -/
def IsOrdinary (c : Char) : Prop := c ≠ '"' ∧ c ≠ '\'' ∧ c ≠ '#'

/-- A character that opens a quote. -/
abbrev IsQuote (c : Char) : Prop := c = '"' ∨ c = '\''

/-- Every quote is closed, and outside of quotes there is no code but those of errors that arise in a cell. -/
inductive Clean : List Char → Prop
  | nil : Clean []
  | char {c : Char} {cs : List Char} : IsOrdinary c → Clean cs → Clean (c :: cs)
  | quoted {quote : Char} {cs rest : List Char} : IsQuote quote → Closes quote cs → Clean rest →
      Clean (quote :: (cs ++ rest))
  | code {kind : ErrorKind} {cs rest : List Char} : kind ≠ .referencedCell →
      ('#' :: cs).map Char.toLower = kind.code.toList.map Char.toLower → Clean rest → Clean ('#' :: (cs ++ rest))

theorem IsQuote.ne_hash {c : Char} (h : IsQuote c) : c ≠ '#' := by
  rcases h with rfl | rfl <;> decide

theorem Clean.append {a b : List Char} (ha : Clean a) (hb : Clean b) : Clean (a ++ b) := by
  induction ha with
  | nil => exact hb
  | char hc _ ih => exact .char hc ih
  | quoted hquote hcloses _ ih =>
    rw [List.cons_append, List.append_assoc]
    exact .quoted hquote hcloses ih
  | code hkind hcode _ ih =>
    rw [List.cons_append, List.append_assoc]
    exact .code hkind hcode ih

theorem clean_of_ordinary {cs : List Char} (h : ∀ c ∈ cs, IsOrdinary c) : Clean cs := by
  induction cs with
  | nil => exact .nil
  | cons c cs ih =>
    obtain ⟨hc, hcs⟩ := List.forall_mem_cons.mp h
    exact .char hc (ih hcs)

theorem clean_of_closes {quote : Char} {cs : List Char} (hquote : IsQuote quote) (h : Closes quote cs) :
    Clean (quote :: cs) := by
  have hclean := Clean.quoted hquote h .nil
  rwa [List.append_nil] at hclean

/-- What follows a quote that is closed once more is part of the same quote. -/
theorem Closes.split {quote : Char} {cs ds rest rest' : List Char} (hcs : Closes quote cs) (hds : Closes quote ds)
    (h : cs ++ quote :: rest' = ds ++ rest) (hrest : rest.head? ≠ some quote) :
    ∃ more, Closes quote more ∧ rest' = more ++ rest := by
  induction hcs generalizing ds with
  | close =>
    cases hds with
    | close =>
      obtain rfl : quote :: rest' = rest := List.cons.inj h |>.2
      exact absurd rfl hrest
    | char hne _ => exact absurd (List.cons.inj h).1.symm hne
    | twice hmore => exact ⟨_, hmore, (List.cons.inj (List.cons.inj h).2).2⟩
  | char hc _ ih =>
    cases hds with
    | close => exact absurd (List.cons.inj h).1 hc
    | char _ hmore => exact ih hmore (List.cons.inj h).2
    | twice _ => exact absurd (List.cons.inj h).1 hc
  | twice _ ih =>
    cases hds with
    | close =>
      obtain rfl : quote :: _ = rest := (List.cons.inj h).2
      exact absurd rfl hrest
    | char hne _ => exact absurd (List.cons.inj h).1.symm hne
    | twice hmore => exact ih hmore (List.cons.inj (List.cons.inj h).2).2

/-- What the lexer takes at once in front of `rest`, codes of errors aside: ordinary characters, or a quote up to
where it is closed. -/
def IsPiece (cs rest : List Char) : Prop :=
  (∀ c ∈ cs, IsOrdinary c) ∨
    ∃ quote body, cs = quote :: body ∧ IsQuote quote ∧ Closes quote body ∧ rest.head? ≠ some quote

/-- What the lexer does with the characters that it takes in front of `rest`, the parentheses that are open
aside. -/
inductive Takes (s : State) : (cs rest : List Char) → State → Prop
  | extend {cs rest : List Char} : IsPiece cs rest → Takes s cs rest (s.extend cs)
  | push {kind : TokenKind} {role : TokenRole} {cs rest : List Char} : role ≠ .error → IsPiece cs rest →
      Takes s cs rest (s.push kind role cs)
  | pushWithOperand {kind : TokenKind} {role : TokenRole} {cs rest : List Char} : role ≠ .error →
      IsPiece cs rest → Takes s cs rest (s.pushWithOperand kind role cs)
  | code {cs rest : List Char} : IsErrorCode ('#' :: cs) →
      Takes s ('#' :: cs) rest (s.pushWithOperand .operand .error ('#' :: cs))

theorem isPiece_singleton {c : Char} (h : IsOrdinary c) (rest : List Char) : IsPiece [c] rest :=
  Or.inl fun _ hd => List.mem_singleton.mp hd ▸ h

theorem clean_of_isPiece {cs rest : List Char} (h : IsPiece cs rest) : Clean cs := by
  rcases h with hordinary | ⟨quote, body, rfl, hquote, hcloses, -⟩
  · exact clean_of_ordinary hordinary
  · exact clean_of_closes hquote hcloses

/-- The same state or the one in which the operand has ended. -/
def State.Flushes (l : Locale) (s t : State) : Prop := t = s ∨ t = s.flush l

theorem State.Flushes.flush {s t : State} (h : s.Flushes l t) : s.Flushes l (t.flush l) := by
  rcases h with rfl | rfl
  · exact Or.inr rfl
  · exact Or.inr (State.flush_of_fresh (State.operand_flush s))

theorem State.Flushes.flushUnlessLast {s t : State} (h : s.Flushes l t) (c : Char) :
    s.Flushes l (t.flushUnlessLast l c) := by
  unfold State.flushUnlessLast
  split
  · exact h
  · exact h.flush

theorem isOrdinary_of_isSpace {c : Char} (h : isSpace c = true) : IsOrdinary c := by
  simp only [isSpace, Bool.or_eq_true, beq_iff_eq] at h
  rcases h with ((rfl | rfl) | rfl) | rfl <;> exact ⟨by decide, by decide, by decide⟩

/-- A step takes what stands first, maybe after it has ended the operand. -/
def StepsTo (l : Locale) (s : State) (c : Char) (cs : List Char) (next : State) (n : Nat) : Prop :=
  ∃ s₁ s₂, s.Flushes l s₁ ∧ Takes s₁ (c :: cs.take n) (cs.drop n) s₂ ∧
    next = { s₂ with openers := next.openers }

theorem stepsTo_quote {s s₁ next : State} (hs : s.Flushes l s₁) {c : Char} (hc : IsQuote c) {cs : List Char}
    {n : Nat} (h : stepQuote l s₁ c cs = .ok (next, n)) : StepsTo l s c cs next n := by
  unfold stepQuote at h
  dsimp only at h
  split at h
  · cases h
  · next m hm =>
    obtain ⟨hcloses, hhead⟩ := closes_of_quotedLength hm
    have hpiece : IsPiece (c :: cs.take m) (cs.drop m) := Or.inr ⟨c, cs.take m, rfl, hc, hcloses, hhead⟩
    split at h
    · next hdouble =>
      have hrole : operandRole l (c :: cs.take m) ≠ .error := by
        rw [show operandRole l (c :: cs.take m) = .text from if_pos hdouble]
        decide
      cases h
      exact ⟨_, _, hs.flushUnlessLast ':', .push hrole hpiece, rfl⟩
    · cases h
      exact ⟨_, _, hs.flushUnlessLast ':', .extend hpiece, rfl⟩

theorem stepsTo_errorCode {s s₁ next : State} (hs : s.Flushes l s₁) {cs : List Char} {n : Nat}
    (h : stepErrorCode l s₁ '#' cs = .ok (next, n)) : StepsTo l s '#' cs next n := by
  unfold stepErrorCode at h
  dsimp only at h
  split at h
  · cases h
  · next m hm =>
    obtain ⟨k, rfl⟩ : ∃ k, m = k + 1 := by
      refine Nat.exists_eq_succ_of_ne_zero fun hzero => ?_
      subst hzero
      obtain ⟨kind, hkind⟩ := isErrorCode_of_errorCodeLength hm
      cases kind <;> cases hkind
    have hcode := isErrorCode_of_errorCodeLength hm
    rw [List.take_succ_cons] at hcode h
    cases h
    exact ⟨_, _, hs.flushUnlessLast '!', .code hcode, rfl⟩

theorem stepsTo_sign {s s₁ next : State} (hs : s.Flushes l s₁) {c : Char} (hc : IsOrdinary c) {cs : List Char}
    {n : Nat} (h : stepSign l s₁ c cs = (next, n)) : StepsTo l s c cs next n := by
  have hone : ∀ kind, ((s₁.flush l).push kind .plain [c], 0) = (next, n) → StepsTo l s c cs next n := by
    rintro kind ⟨⟩
    exact ⟨_, _, hs.flush, .push (by decide) (isPiece_singleton hc _), rfl⟩
  unfold stepSign at h
  split at h
  · next d ds =>
    split at h
    · next hpair =>
      cases h
      refine ⟨_, _, hs.flush, .push (by decide) (Or.inl ?_), rfl⟩
      intro e he
      rcases List.mem_cons.mp he with rfl | he
      · exact hc
      · obtain rfl : e = d := List.mem_singleton.mp he
        rcases hpair with ⟨-, rfl⟩ | ⟨-, rfl⟩ | ⟨-, rfl⟩ <;> exact ⟨by decide, by decide, by decide⟩
    · exact hone _ h
  · exact hone _ h

/-- **What one step of the lexer can do**, in every locale. -/
theorem stepsTo_of_step {s next : State} {c : Char} {cs : List Char} {n : Nat}
    (h : step l s c cs = .ok (next, n)) : StepsTo l s c cs next n := by
  unfold step at h
  by_cases hsign : (c = '+' ∨ c = '-') ∧ awaitsExponent l.decimal s.operand.reverse
  · rw [if_pos hsign] at h
    cases h
    have hc : IsOrdinary c := by
      rcases hsign.1 with rfl | rfl <;> exact ⟨by decide, by decide, by decide⟩
    exact ⟨s, _, Or.inl rfl, .extend (isPiece_singleton hc _), rfl⟩
  rw [if_neg hsign] at h
  have hs : s.Flushes l (if endsOperand l.separator c then s.flush l else s) := by
    split
    · exact Or.inr rfl
    · exact Or.inl rfl
  generalize (if endsOperand l.separator c then s.flush l else s) = s₁ at h hs
  dsimp only at h
  by_cases hquote : c = '"' ∨ c = '\''
  · rw [if_pos hquote] at h
    exact stepsTo_quote hs hquote h
  rw [if_neg hquote] at h
  by_cases hhash : c = '#'
  · subst hhash
    rw [if_pos rfl] at h
    exact stepsTo_errorCode hs h
  rw [if_neg hhash] at h
  have hc : IsOrdinary c := ⟨fun hd => hquote (Or.inl hd), fun hd => hquote (Or.inr hd), hhash⟩
  have hsingle : IsPiece (c :: cs.take 0) (cs.drop 0) := isPiece_singleton hc _
  by_cases hspace : isSpace c
  · rw [if_pos hspace] at h
    cases h
    have htake : cs.take (cs.takeWhile isSpace).length = cs.takeWhile isSpace :=
      (List.prefix_iff_eq_take.mp (List.takeWhile_prefix isSpace)).symm
    refine ⟨s₁, s₁.push .blank .plain (c :: cs.takeWhile isSpace), hs, ?_, rfl⟩
    rw [htake]
    refine .push (by decide) (Or.inl fun d hd => ?_)
    rcases List.mem_cons.mp hd with rfl | hd
    · exact hc
    · exact isOrdinary_of_isSpace (List.all_eq_true.mp List.all_takeWhile d hd)
  rw [if_neg hspace] at h
  by_cases hoperator : isSign c
  · rw [if_pos hoperator] at h
    exact stepsTo_sign hs hc (Except.ok.inj h)
  rw [if_neg hoperator] at h
  by_cases hopening : c = '('
  · rw [if_pos hopening] at h
    cases h
    exact ⟨s₁, _, hs, .pushWithOperand (by decide) hsingle, rfl⟩
  rw [if_neg hopening] at h
  by_cases hclosing : c = ')'
  · rw [if_pos hclosing] at h
    split at h
    · cases h
    · cases h
      exact ⟨s₁, _, hs, .push (by decide) hsingle, rfl⟩
  rw [if_neg hclosing] at h
  by_cases hseparator : c = l.separator
  · rw [if_pos hseparator] at h
    split at h
    · cases h
      exact ⟨s₁, _, hs, .push (by decide) hsingle, rfl⟩
    · cases h
  rw [if_neg hseparator] at h
  split at h
  · cases h
  split at h
  · cases h
  · cases h
    exact ⟨s₁, _, hs, .extend hsingle, rfl⟩

/-- **What each step of the lexer keeps holds at the end of the text**, where the lexer ends the operand. -/
theorem holds_of_run {I : State → List Char → Prop}
    (hstep : ∀ {s next : State} {c : Char} {cs : List Char} {n : Nat},
      StepsTo l s c cs next n → I s (c :: cs) → I next (cs.drop n))
    {s last : State} {cs : List Char} (h : I s cs) (hrun : run l s cs = .ok last) :
    ∃ s', I s' [] ∧ last = s'.flush l := by
  match cs with
  | [] =>
    rw [run] at hrun
    split at hrun
    · cases hrun
      exact ⟨s, h, rfl⟩
    · cases hrun
  | c :: cs =>
    cases hnext : step l s c cs with
    | error e =>
      rw [run, hnext] at hrun
      cases hrun
    | ok result =>
      obtain ⟨next, n⟩ := result
      rw [run_of_step hnext] at hrun
      exact holds_of_run hstep (hstep (stepsTo_of_step hnext) h) hrun
termination_by cs.length
decreasing_by
  rw [List.length_drop, List.length_cons]
  omega

/-! ### From tokens to clean texts -/

/-- A word without the code of an error in another cell, or one that ends in it. -/
structure IsCleanWord (w : Word) : Prop where
  skipped : Clean w.skipped
  chars : Clean w.chars ∨ (w.token 0).isReferencedCode = true

/-- The lexer has found these words and is gathering a clean operand. -/
structure Spells (ws : List Word) (s : State) : Prop where
  tokens_eq : s.tokens.reverse = Word.tokens 1 ws
  offset_eq : s.offset = 1 + Text.byteLength (Word.sources ws) + Text.byteLength s.operand.reverse
  start_eq : s.operand ≠ [] → s.start = 1 + Text.byteLength (Word.sources ws)
  operand : Clean s.operand.reverse
  words : ∀ w ∈ ws, IsCleanWord w

section Spells

variable {ws : List Word} {s s' : State}

/-- One more word. -/
theorem Spells.snoc (h : Spells ws s) {w : Word} (hw : IsCleanWord w) (hoperand : s'.operand = [])
    (htokens : s'.tokens = w.token (1 + Text.byteLength (Word.sources ws)) :: s.tokens)
    (hoffset : s'.offset = 1 + Text.byteLength (Word.sources ws) + Text.byteLength w.source) :
    Spells (ws ++ [w]) s' where
  tokens_eq := by
    rw [htokens, List.reverse_cons, h.tokens_eq, Word.tokens_append]
    rfl
  offset_eq := by
    rw [hoffset, hoperand, Word.sources_append, Text.byteLength_append, Word.sources_cons]
    simp [Word.sources, Text.byteLength, Nat.add_assoc]
  start_eq := fun hne => absurd hoperand hne
  operand := by
    rw [hoperand]
    exact .nil
  words := by
    intro u hu
    rcases List.mem_append.mp hu with hu | hu
    · exact h.words u hu
    · rw [List.mem_singleton.mp hu]
      exact hw

/-- The words and the operand are all characters that the lexer has taken. -/
def SpellsAll (cs : List Char) (s : State) : Prop :=
  ∃ ws, Spells ws s ∧ cs = Word.sources ws ++ s.operand.reverse

variable {done : List Char}

theorem SpellsAll.push (h : SpellsAll done s) {kind : TokenKind} {role : TokenRole} {cs : List Char}
    (hcs : Clean cs ∨ (Word.token ⟨[], cs, kind, role⟩ 0).isReferencedCode = true) :
    SpellsAll (done ++ cs) (s.push kind role cs) := by
  obtain ⟨ws, hspells, rfl⟩ := h
  refine ⟨ws ++ [⟨s.operand.reverse, cs, kind, role⟩], hspells.snoc ⟨hspells.operand, hcs⟩ rfl ?_ ?_, ?_⟩
  · unfold State.push Word.token
    rw [hspells.offset_eq]
  · unfold State.push Word.source
    dsimp only
    rw [hspells.offset_eq, Text.byteLength_append, Nat.add_assoc]
  · simp [Word.sources, Word.source, State.push]

theorem SpellsAll.pushWithOperand (h : SpellsAll done s) {kind : TokenKind} {role : TokenRole} {cs : List Char}
    (hcs : Clean cs ∨ ∀ qualifier, (Word.token ⟨[], qualifier ++ cs, kind, role⟩ 0).isReferencedCode = true) :
    SpellsAll (done ++ cs) (s.pushWithOperand kind role cs) := by
  unfold State.pushWithOperand
  split
  · exact h.push (hcs.imp_right fun hcode => hcode [])
  · next hne =>
    obtain ⟨ws, hspells, rfl⟩ := h
    have hchars : Clean (s.operand.reverse ++ cs) ∨
        (Word.token ⟨[], s.operand.reverse ++ cs, kind, role⟩ 0).isReferencedCode = true :=
      hcs.imp hspells.operand.append fun hcode => hcode _
    have hstop : s.offset + Text.byteLength cs =
        1 + Text.byteLength (Word.sources ws) + Text.byteLength (s.operand.reverse ++ cs) := by
      rw [hspells.offset_eq, Text.byteLength_append, Nat.add_assoc]
    refine ⟨ws ++ [⟨[], s.operand.reverse ++ cs, kind, role⟩], hspells.snoc ⟨.nil, hchars⟩ rfl ?_ ?_, ?_⟩
    · unfold Word.token
      dsimp only
      rw [hspells.start_eq hne, hstop]
      rfl
    · exact hstop
    · simp [Word.sources, Word.source]

theorem SpellsAll.extend (h : SpellsAll done s) {cs : List Char} (hcs : Clean cs) :
    SpellsAll (done ++ cs) (s.extend cs) := by
  obtain ⟨ws, hspells, rfl⟩ := h
  have hoperand : (s.extend cs).operand.reverse = s.operand.reverse ++ cs := by
    simp [State.extend]
  refine ⟨ws, ⟨hspells.tokens_eq, ?_, fun hne => ?_, ?_, hspells.words⟩, ?_⟩
  · rw [hoperand, Text.byteLength_append, ← Nat.add_assoc, ← hspells.offset_eq]
    rfl
  · show (if s.operand = [] then s.offset else s.start) = _
    split
    · next hnil =>
      rw [hspells.offset_eq, hnil]
      rfl
    · next hold => exact hspells.start_eq hold
  · rw [hoperand]
    exact hspells.operand.append hcs
  · rw [hoperand, List.append_assoc]

theorem SpellsAll.flushes (h : SpellsAll done s) (hs : s.Flushes l s') : SpellsAll done s' := by
  rcases hs with rfl | rfl
  · exact h
  · unfold State.flush
    split
    · exact h
    · have hpushed : SpellsAll (done ++ []) (s.pushWithOperand .operand (operandRole l s.operand.reverse) []) :=
        h.pushWithOperand (Or.inl .nil)
      rwa [List.append_nil] at hpushed

theorem SpellsAll.takes (h : SpellsAll done s) {cs rest : List Char} (ht : Takes s cs rest s') :
    SpellsAll (done ++ cs) s' := by
  cases ht with
  | extend hpiece => exact h.extend (clean_of_isPiece hpiece)
  | push _ hpiece => exact h.push (Or.inl (clean_of_isPiece hpiece))
  | pushWithOperand _ hpiece => exact h.pushWithOperand (Or.inl (clean_of_isPiece hpiece))
  | @code cs _ hcode =>
    obtain ⟨kind, hkind⟩ := hcode
    refine h.pushWithOperand ?_
    by_cases hother : kind = .referencedCell
    · right
      intro qualifier
      refine Token.isReferencedCode_iff.mpr ⟨rfl, ?_⟩
      show referencedCode <:+ (String.ofList (qualifier ++ '#' :: cs)).toList.map Char.toLower
      rw [String.toList_ofList, List.map_append, hkind, hother]
      exact List.suffix_append _ _
    · left
      have hclean := Clean.code hother hkind .nil
      rwa [List.append_nil] at hclean

end Spells

theorem SpellsAll.stepsTo {done : List Char} {s next : State} (h : SpellsAll done s) {c : Char} {cs : List Char}
    {n : Nat} (hstep : StepsTo l s c cs next n) : SpellsAll (done ++ c :: cs.take n) next := by
  obtain ⟨s₁, s₂, hs, htakes, hnext⟩ := hstep
  obtain ⟨ws, hspells, hall⟩ := (h.flushes hs).takes htakes
  rw [hnext]
  exact ⟨ws, ⟨hspells.tokens_eq, hspells.offset_eq, hspells.start_eq, hspells.operand, hspells.words⟩, hall⟩

/-- **The lexer takes a text apart into words that are clean**, codes of another cell aside. -/
theorem spells_of_run {cs : List Char} {last : State} (hrun : run l {} cs = .ok last) :
    ∃ ws, Spells ws last ∧ Word.sources ws = cs := by
  let I : State → List Char → Prop := fun s rest => ∃ done, SpellsAll done s ∧ cs = done ++ rest
  have hstep : ∀ {s next : State} {c : Char} {rest : List Char} {n : Nat},
      StepsTo l s c rest next n → I s (c :: rest) → I next (rest.drop n) := by
    rintro s next c rest n hsteps ⟨done, hspells, hall⟩
    refine ⟨done ++ c :: rest.take n, hspells.stepsTo hsteps, ?_⟩
    rw [hall, List.append_assoc, List.cons_append, List.take_append_drop]
  have hstart : I {} cs := ⟨[], ⟨[], ⟨rfl, rfl, fun hne => absurd rfl hne, .nil, nofun⟩, rfl⟩, rfl⟩
  obtain ⟨s, ⟨done, hspells, rfl⟩, rfl⟩ := holds_of_run hstep hstart hrun
  obtain ⟨ws, hlast, hall⟩ := hspells.flushes (Or.inr rfl)
  refine ⟨ws, hlast, ?_⟩
  rw [State.operand_flush] at hall
  rw [List.append_nil, hall]
  exact (List.append_nil _).symm

/-! ### From clean texts to tokens -/

/-- The characters of a token end in the code of an error of which something is true. -/
def EndsInCode (P : List Char → Prop) (t : Token) : Prop :=
  ∃ qualifier code, t.text.toList = qualifier ++ '#' :: code ∧ IsErrorCode ('#' :: code) ∧ P ('#' :: code)

/-- The tokens that are codes of errors are codes of which something is true, and the operand begins no code. -/
structure Coded (P : List Char → Prop) (s : State) : Prop where
  tokens : ∀ t ∈ s.tokens, t.role = .error → EndsInCode P t
  operand : s.operand.reverse.head? ≠ some '#'

theorem operandRole_ne_error {cs : List Char} (h : cs.head? ≠ some '#') : operandRole l cs ≠ .error := by
  unfold operandRole
  split
  · decide
  · next c cs =>
    have hc : c ≠ '#' := fun hc => h (congrArg some hc)
    dsimp only
    rw [if_neg hc]
    repeat' split
    all_goals decide

section Coded

variable {P : List Char → Prop} {s s' : State}

theorem Coded.push (h : Coded P s) {kind : TokenKind} {role : TokenRole} {cs : List Char}
    (hcs : role = .error → EndsInCode P (Word.token ⟨[], cs, kind, role⟩ 0)) : Coded P (s.push kind role cs) where
  tokens := List.forall_mem_cons.mpr ⟨hcs, h.tokens⟩
  operand := nofun

theorem Coded.pushWithOperand (h : Coded P s) {kind : TokenKind} {role : TokenRole} {cs : List Char}
    (hcs : role = .error → ∀ qualifier, EndsInCode P (Word.token ⟨[], qualifier ++ cs, kind, role⟩ 0)) :
    Coded P (s.pushWithOperand kind role cs) := by
  unfold State.pushWithOperand
  split
  · exact h.push fun hrole => hcs hrole []
  · exact ⟨List.forall_mem_cons.mpr ⟨fun hrole => hcs hrole _, h.tokens⟩, nofun⟩

theorem Coded.flushes (h : Coded P s) (hs : s.Flushes l s') : Coded P s' := by
  rcases hs with rfl | rfl
  · exact h
  · unfold State.flush
    split
    · exact h
    · exact h.pushWithOperand fun hrole => absurd hrole (operandRole_ne_error h.operand)

theorem Coded.takes (h : Coded P s) {cs rest : List Char} (ht : Takes s cs rest s')
    (hP : ∀ code, cs = '#' :: code → IsErrorCode cs → P cs) : Coded P s' := by
  cases ht with
  | extend hpiece =>
    refine ⟨h.tokens, ?_⟩
    rw [State.extend, List.reverse_append, List.reverse_reverse, List.head?_append]
    cases hhead : s.operand.reverse.head? with
    | some c =>
      rw [Option.some_or, ← hhead]
      exact h.operand
    | none =>
      rw [Option.none_or]
      rcases hpiece with hordinary | ⟨quote, body, rfl, hquote, -⟩
      · exact fun hhash => (hordinary '#' (List.mem_of_mem_head? hhash)).2.2 rfl
      · exact fun hhash => hquote.ne_hash (Option.some.inj hhash)
  | push hrole _ => exact h.push fun herror => absurd herror hrole
  | pushWithOperand hrole _ => exact h.pushWithOperand fun herror => absurd herror hrole
  | @code code _ hcode =>
    refine h.pushWithOperand fun _ qualifier => ⟨qualifier, code, ?_, hcode, hP code rfl hcode⟩
    exact String.toList_ofList

end Coded

end Lexer

open Lexer

/-! ### Edits -/

/-- The tokens of a formula are those that the lexer finds behind the equals sign. -/
theorem exists_run_of_tokenize {l : Locale} {cs : List Char} {ts : List Token}
    (h : tokenize l (String.ofList ('=' :: cs)) = .ok ts) :
    ∃ last, run l {} cs = .ok last ∧ ts = last.tokens.reverse := by
  unfold tokenize at h
  split at h
  · cases h
  rw [String.toList_ofList] at h
  dsimp only at h
  rw [if_pos rfl] at h
  cases hrun : run l {} cs with
  | error e =>
    rw [hrun] at h
    cases h
  | ok last =>
    rw [hrun] at h
    cases h
    exact ⟨last, rfl, rfl⟩

end Spreadsheet
