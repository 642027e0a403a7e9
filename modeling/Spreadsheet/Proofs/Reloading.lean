import Mathlib
import Spreadsheet.Proofs.Entries
import Spreadsheet.Proofs.Frames
import Spreadsheet.Proofs.Pulling
import Spreadsheet.Proofs.Signs
import Spreadsheet.Proofs.Writing

/-!
# Reloading: what a saved constant is loaded as

The saved text of a constant does not say which kind of value it is; the loader finds out what to read by
looking at the text alone (`constantOfSaved?`). A text constant is never mistaken, in any locale, since
whatever could be is saved behind the mark (`constantOfSaved?_savedText_text`). Of the other values the
loader can tell numbers and truth values apart, and nothing else: a date or a time is saved as its serial
number, an error as its code, and they are loaded as that (`Value.reloaded`).

`Engine.reloads_setValue` says so for every value that is put into a cell of one engine, saved, and loaded
into any cell of another engine with the same built-in locale.
-/

namespace Spreadsheet

open Grid

/-- Whether the number behind a value, if there is one, is finite. -/
def Value.IsFinite (v : Value) : Prop := ∀ x ∈ v.serial?, x.isFinite = true

/-- What a saved constant is loaded as: dates and times are numbers, an error is the text of its code. -/
def Value.reloaded : Value → Value
  | .date x | .time x => .number x
  | .error e => .text e.kind.code
  | v => v

/-- The constant that a saved text is read as; a formula is none. -/
def constantOfSaved? (locale : Locale) (text : String) : Option Value :=
  match text.toList with
  | '=' :: _ => none
  | c :: rest => some (if c = textMark then .text (String.ofList rest) else Value.ofConstant locale text)
  | [] => some .empty

/-! ### Texts -/

section Reading

variable {locale : Locale} {text : String} {c : Char} {cs : List Char}

theorem constantOfSaved?_of_mark (htext : text.toList = textMark :: cs) :
    constantOfSaved? locale text = some (.text (String.ofList cs)) := by
  unfold constantOfSaved?
  rw [htext]
  split
  · next heq => exact absurd (List.cons.inj heq).1 (by decide)
  · next heq =>
    obtain ⟨rfl, rfl⟩ := List.cons.inj heq
    rw [if_pos rfl]
  · next heq => cases heq

theorem constantOfSaved?_of_head (htext : text.toList = c :: cs) (hequals : c ≠ '=') (hmark : c ≠ textMark) :
    constantOfSaved? locale text = some (Value.ofConstant locale text) := by
  unfold constantOfSaved?
  rw [htext]
  split
  · next heq => exact absurd (List.cons.inj heq).1 hequals
  · next heq => rw [← (List.cons.inj heq).1, if_neg hmark]
  · next heq => cases heq

end Reading

/-- **A text constant is read back as itself**, whatever it looks like. -/
theorem constantOfSaved?_savedText_text (locale : Locale) (s : String) :
    constantOfSaved? locale (savedText locale (.text s)) = some (.text s) := by
  unfold savedText
  dsimp only
  split
  · rw [constantOfSaved?_of_mark String.toList_ofList, String.ofList_toList]
  · next hplain =>
    unfold isAmbiguous at hplain
    split at hplain
    · next c cs hs =>
      rw [Bool.not_eq_true, Bool.or_eq_false_iff, Bool.or_eq_false_iff, beq_eq_false_iff_ne,
        beq_eq_false_iff_ne, Bool.not_eq_false'] at hplain
      obtain ⟨⟨hequals, hmark⟩, hsame⟩ := hplain
      rw [constantOfSaved?_of_head hs hequals hmark]
      revert hsame
      cases Value.ofConstant locale s with
      | text t => exact fun hsame => by rw [show t = s from beq_iff_eq.mp hsame]
      | _ => exact fun hsame => by cases hsame
    · exact absurd rfl hplain

/-! ### Numbers, truth values and errors -/

theorem ofConstant_of_readNumber {locale : Locale} {s : String} {x : Float} (hs : s ≠ "")
    (hread : locale.readNumber s = some x) : Value.ofConstant locale s = .number x := by
  unfold Value.ofConstant
  rw [if_neg hs, hread]

theorem ofConstant_booleanText {l : Locale} (hl : l.IsBuiltIn) (b : Bool) :
    Value.ofConstant l (Value.booleanText b) = .boolean b := by
  rcases hl with rfl | rfl <;> cases b <;> rfl

theorem ofConstant_code {l : Locale} (hl : l.IsBuiltIn) (kind : ErrorKind) :
    Value.ofConstant l kind.code = .text kind.code := by
  rcases hl with rfl | rfl <;> cases kind <;> rfl

theorem constantOfSaved?_numberText {l : Locale} (hl : l.IsBuiltIn) {x : Float} (hx : x.isFinite = true) :
    ∃ y, constantOfSaved? l (l.numberText x) = some (.number y) ∧ (y == x) = true ∧
      ((x == 0) = false → y = x) := by
  obtain ⟨y, hread, hsame, heq⟩ := Locale.readNumber_text hl hx
  obtain ⟨c, cs, htext, hc⟩ := Locale.numberText_eq_cons hl hx
  have hother : c ≠ '=' ∧ c ≠ textMark := by
    rcases hc with rfl | hdigit
    · decide
    · constructor <;> (rintro rfl; exact absurd hdigit (by decide))
  have hfilled : l.numberText x ≠ "" := fun h => by
    rw [h] at htext
    cases htext
  exact ⟨y, by rw [constantOfSaved?_of_head htext hother.1 hother.2, ofConstant_of_readNumber hfilled hread],
    hsame, heq⟩

/-- **What the saved text of a constant is read as**: the value itself, up to the sign of a zero, with the kind
that is left when dates, times and errors are written out. -/
theorem constantOfSaved?_savedText {l : Locale} (hl : l.IsBuiltIn) {v : Value} (hfilled : v.isEmpty = false)
    (hv : v.IsFinite) :
    ∃ w, constantOfSaved? l (savedText l v) = some w ∧ w.same v.reloaded = true ∧
      ((∀ x ∈ v.serial?, (x == 0) = false) → w = v.reloaded) := by
  have hnumber : ∀ x : Float, x.isFinite = true →
      ∃ w, constantOfSaved? l (l.numberText x) = some w ∧ w.same (.number x) = true ∧
        ((x == 0) = false → w = .number x) := by
    intro x hx
    obtain ⟨y, hread, hsame, heq⟩ := constantOfSaved?_numberText hl hx
    exact ⟨.number y, hread, hsame, fun h => congrArg _ (heq h)⟩
  cases v with
  | empty => cases hfilled
  | number x | date x | time x =>
    obtain ⟨w, hread, hsame, heq⟩ := hnumber x (hv x rfl)
    exact ⟨w, hread, hsame, fun h => heq (h x rfl)⟩
  | text s => exact ⟨.text s, constantOfSaved?_savedText_text l s, beq_self_eq_true s, fun _ => rfl⟩
  | boolean b =>
    refine ⟨.boolean b, (?_ : constantOfSaved? l (Value.booleanText b) = _), beq_self_eq_true b, fun _ => rfl⟩
    rw [← ofConstant_booleanText hl b]
    cases b <;> rfl
  | error e =>
    refine ⟨.text e.kind.code, (?_ : constantOfSaved? l e.kind.code = _), beq_self_eq_true _, fun _ => rfl⟩
    rw [← ofConstant_code hl e.kind]
    cases e.kind <;> rfl

namespace Engine

/-! ### Loading -/

section Loading

variable {e : Engine} {sheet : SheetId} {a : Address} {p : Position} {saved : SavedCell} {c : Char} {cs : List Char}
  (hlocate : e.locate sheet a = .ok p)
include hlocate

theorem loadCell_of_mark (htext : saved.text.toList = textMark :: cs) :
    e.loadCell sheet a saved = ⟨e.loadConstant p (.text (String.ofList cs)), .ok ()⟩ := by
  unfold loadCell edit
  rw [hlocate, perform_ok]
  dsimp only
  rw [htext]
  split
  · next heq => exact absurd (List.cons.inj heq).1 (by decide)
  · next heq =>
    obtain ⟨rfl, rfl⟩ := List.cons.inj heq
    rw [if_pos rfl]
  · next heq => cases heq

theorem loadCell_of_head (htext : saved.text.toList = c :: cs) (hequals : c ≠ '=') (hmark : c ≠ textMark) :
    e.loadCell sheet a saved =
      ⟨e.loadConstant p (Value.ofConstant e.settings.locale saved.text), .ok ()⟩ := by
  unfold loadCell edit
  rw [hlocate, perform_ok]
  dsimp only
  rw [htext]
  split
  · next heq => exact absurd (List.cons.inj heq).1 hequals
  · next heq => rw [← (List.cons.inj heq).1, if_neg hmark]
  · next heq => cases heq

/-- A saved text that is read as a constant stores that constant. -/
theorem loadCell_of_constant {v : Value} (hread : constantOfSaved? e.settings.locale saved.text = some v)
    (hfilled : v.isEmpty = false) : e.loadCell sheet a saved = ⟨e.loadConstant p v, .ok ()⟩ := by
  rcases htext : saved.text.toList with _ | ⟨c, cs⟩
  · unfold constantOfSaved? at hread
    rw [htext] at hread
    cases hread
    cases hfilled
  by_cases hequals : c = '='
  · subst hequals
    unfold constantOfSaved? at hread
    rw [htext] at hread
    cases hread
  by_cases hmark : c = textMark
  · subst hmark
    rw [constantOfSaved?_of_mark htext] at hread
    rw [loadCell_of_mark hlocate htext, Option.some.inj hread]
  · rw [constantOfSaved?_of_head htext hequals hmark] at hread
    rw [loadCell_of_head hlocate htext hequals hmark, Option.some.inj hread]

end Loading

theorem contains_take {e : Engine} {p : Position} (hsheet : e.workbook.contains p.sheet = true) :
    (e.take p).workbook.contains p.sheet = true :=
  ((sameFrame_take (.refl e.workbook) p).contains_eq p.sheet).trans hsheet

/-- A constant that is loaded is stored as it is. -/
theorem cell?_loadConstant {e : Engine} {p : Position} (hsheet : e.workbook.contains p.sheet = true) (v : Value) :
    (e.loadConstant p v).cell? p = some (Cell.constant v) := by
  have hstore : ((e.take p).store p (.constant v)).workbook.cell? p = some (Cell.constant v) :=
    cell_store (contains_take hsheet) _
  have hmarked := markedBy_foldl ((e.take p).store p (.constant v))
    (((e.take p).store p (.constant v)).graph.closure [p]).toList
  by_cases hp : p ∈ (((e.take p).store p (.constant v)).graph.closure [p]).toList
  · have hcell := hmarked.cell_marked p hp
    rw [hstore] at hcell
    exact hcell
  · exact (hmarked.cell_unmarked p hp).trans hstore

theorem settings_take (e : Engine) (p : Position) : (e.take p).settings = e.settings := by
  unfold take
  split <;> rfl

/-- Putting a value into a cell enters it there, whatever a pass computes afterwards. -/
theorem sameEntries_putValue_store (e : Engine) (p : Position) {v : Value} (hfilled : v.isEmpty = false) :
    (e.putValue p v).SameEntries ((e.take p).store p (.constant v)) := by
  unfold putValue
  rw [hfilled, if_neg Bool.false_ne_true]
  refine ((sameEntries_afterEdit _).trans (sameEntries_markDirty _ _)).trans ?_
  exact ⟨rfl, rfl, rfl, .refl _⟩

/-- What is saved of a cell that a value was put into. -/
theorem saveCell_setValue {e : Engine} {sheet : SheetId} {a : Address} {v : Value} (hfilled : v.isEmpty = false)
    (hset : (e.setValue sheet a v).result = .ok ()) :
    ∃ saved, (e.setValue sheet a v).engine.saveCell sheet a = .ok (some saved) ∧
      saved.text = savedText e.settings.locale v := by
  unfold setValue edit at hset ⊢
  cases hlocate : e.locate sheet a with
  | error problem =>
    rw [hlocate] at hset
    cases hset
  | ok p =>
    rw [perform_ok]
    have hstored := sameEntries_putValue_store e p hfilled
    have hsettings : ((e.take p).store p (.constant v)).settings = e.settings := settings_take e p
    have hentry := hstored.workbook.entry_eq p
    rw [cell_store (contains_take (contains_of_locate hlocate))] at hentry
    obtain ⟨c, hc, hentry⟩ := Option.map_eq_some_iff.mp hentry
    have hlocated : (e.putValue p v).locate sheet a = .ok p :=
      locate_of_sameFrame hlocate (hstored.columns_eq.trans (by rw [hsettings]))
        (hstored.rows_eq.trans (by rw [hsettings])) (sameFrame_putValue (.refl _) p v)
    refine ⟨(e.putValue p v).savedCell c, ?_, ?_⟩
    · unfold saveCell
      rw [hlocated]
      show Except.ok (((e.putValue p v).workbook.cell? p).map _) = _
      rw [hc]
      rfl
    · unfold savedCell
      rw [hstored.locale_eq, hsettings]
      revert hentry
      unfold Cell.entry
      cases c.content with
      | constant w => exact fun hentry => by cases hentry; rfl
      | formula f => exact fun hentry => by cases hentry

/-- **Saved constants are loaded with the value they had**, as far as the text tells: numbers come back as the
same number, truth values and texts as themselves, dates and times as the number of their serial, and errors as the
text of their code. Only the sign of a zero is lost, which no comparison sees. -/
theorem reloads_setValue (e e' : Engine) (hlocale : e'.settings.locale = e.settings.locale)
    (hl : e.settings.locale.IsBuiltIn) (sheet : SheetId) (a : Address) (v : Value) (hfilled : v.isEmpty = false)
    (hv : v.IsFinite) (hset : (e.setValue sheet a v).result = .ok ()) :
    ∃ saved, (e.setValue sheet a v).engine.saveCell sheet a = .ok (some saved) ∧
      ∀ (sheet' : SheetId) (a' : Address) (p : Position), e'.locate sheet' a' = .ok p →
        (e'.loadCell sheet' a' saved).result = .ok () ∧
          ∃ w, (e'.loadCell sheet' a' saved).engine.cell? p = some (Cell.constant w) ∧
            w.same v.reloaded = true ∧ ((∀ x ∈ v.serial?, (x == 0) = false) → w = v.reloaded) := by
  obtain ⟨saved, hsaved, htext⟩ := saveCell_setValue hfilled hset
  obtain ⟨w, hread, hsame, heq⟩ := constantOfSaved?_savedText hl hfilled hv
  have hkept : w.isEmpty = false := by
    revert hsame
    cases w with
    | empty => cases v <;> intro hsame <;> cases hsame; cases hfilled
    | _ => exact fun _ => rfl
  refine ⟨saved, hsaved, fun sheet' a' p hlocate => ?_⟩
  rw [loadCell_of_constant hlocate (by rw [htext, hlocale]; exact hread) hkept]
  exact ⟨rfl, w, cell?_loadConstant (contains_of_locate hlocate) w, hsame, heq⟩

/-- A negative fraction in a sheet with decimal commas is saved, and loaded into another cell of another engine. -/
theorem reloads_setValue_fraction :
    let e := (start { locale := .commaDecimal } .standard).run [.addSheet "S"]
    let e' := (start { locale := .commaDecimal } .standard).run [.addSheet "T", .setFormula firstSheet (.plain 2 3) "=1"]
    let v : Value := .number (-0.5)
    e.settings.locale.IsBuiltIn ∧ v.IsFinite ∧ (e.setValue firstSheet (.plain 1 1) v).result = .ok () ∧
      e'.locate firstSheet (.plain 2 3) = .ok ⟨firstSheet, 3, 2⟩ ∧
      ∃ saved, (e.setValue firstSheet (.plain 1 1) v).engine.saveCell firstSheet (.plain 1 1) = .ok (some saved) ∧
        (e'.loadCell firstSheet (.plain 2 3) saved).engine.cell? ⟨firstSheet, 3, 2⟩ = some (Cell.constant v) := by
  intro e e' v
  have hlocale : e.settings.locale = .commaDecimal := by decide +kernel
  have hlocale' : e'.settings.locale = .commaDecimal := by decide +kernel
  have hset : (e.setValue firstSheet (.plain 1 1) v).result = .ok () := by decide +kernel
  have hlocate : e'.locate firstSheet (.plain 2 3) = .ok ⟨firstSheet, 3, 2⟩ := by decide +kernel
  have hfinite : v.IsFinite := by
    rintro x ⟨⟩
    decide +kernel
  have hnonzero : ∀ x ∈ v.serial?, (x == 0) = false := by
    rintro x ⟨⟩
    decide +kernel
  obtain ⟨saved, hsaved, hload⟩ := reloads_setValue e e' (hlocale'.trans hlocale.symm) (Or.inr hlocale) firstSheet
    (.plain 1 1) v rfl hfinite hset
  obtain ⟨-, w, hcell, -, heq⟩ := hload firstSheet (.plain 2 3) ⟨firstSheet, 3, 2⟩ hlocate
  rw [heq hnonzero] at hcell
  exact ⟨Or.inr hlocale, hfinite, hset, hlocate, saved, hsaved, hcell⟩

/-- A value that is put into a cell, saved, and loaded into the same cell is another value afterwards. -/
def ComesBackOtherwise (v : Value) : Prop :=
  let e := (start {} .standard).run [.addSheet "S"]
  v.IsFinite ∧ (e.setValue firstSheet (.plain 1 1) v).result = .ok () ∧
    ∃ saved, (e.setValue firstSheet (.plain 1 1) v).engine.saveCell firstSheet (.plain 1 1) = .ok (some saved) ∧
      (e.loadCell firstSheet (.plain 1 1) saved).result = .ok () ∧
        ∃ w, (e.loadCell firstSheet (.plain 1 1) saved).engine.cell? ⟨firstSheet, 1, 1⟩ = some (Cell.constant w) ∧
          w.same v = false ∧ w.kindName ≠ v.kindName

theorem comesBackOtherwise {v : Value} (hfilled : v.isEmpty = false) (hfinite : v.IsFinite)
    (hset : (((start {} .standard).run [.addSheet "S"]).setValue firstSheet (.plain 1 1) v).result = .ok ())
    (hnonzero : ∀ x ∈ v.serial?, (x == 0) = false) (hkind : v.reloaded.kindName ≠ v.kindName) :
    ComesBackOtherwise v := by
  have hlocale : ((start {} .standard).run [.addSheet "S"]).settings.locale = .invariant := by decide +kernel
  have hlocate : ((start {} .standard).run [.addSheet "S"]).locate firstSheet (.plain 1 1) =
      .ok ⟨firstSheet, 1, 1⟩ := by decide +kernel
  obtain ⟨saved, hsaved, htext⟩ := saveCell_setValue hfilled hset
  obtain ⟨w, hread, -, heq⟩ := constantOfSaved?_savedText (Or.inl hlocale) hfilled hfinite
  obtain rfl := heq hnonzero
  have hkept : v.reloaded.isEmpty = false := by
    cases v <;> first | rfl | exact hfilled
  rw [← htext] at hread
  have hload := loadCell_of_constant hlocate hread hkept
  have hother : v.reloaded.same v = false := by
    revert hkind
    cases v <;> intro hkind <;> first | rfl | exact absurd rfl hkind
  refine ⟨hfinite, hset, saved, hsaved, ?_, v.reloaded, ?_, hother, hkind⟩
  · rw [hload]
  · rw [hload]
    exact cell?_loadConstant (contains_of_locate hlocate) _

/-- **Dates, times and errors do not come back as they were.** -/
theorem not_reloads_kinds :
    ComesBackOtherwise (.date 45000) ∧ ComesBackOtherwise (.time 0.5) ∧
      ComesBackOtherwise (.error { kind := .domain }) := by
  refine ⟨comesBackOtherwise rfl ?_ (by decide +kernel) ?_ (by decide),
    comesBackOtherwise rfl ?_ (by decide +kernel) ?_ (by decide),
    comesBackOtherwise rfl ?_ (by decide +kernel) ?_ (by decide)⟩ <;> rintro x ⟨⟩ <;> decide +kernel

end Engine

end Spreadsheet
