/-!
# Text compared without the case of ASCII letters

Keywords, error codes and column letters ignore the case of the letters `A` to `Z` only. Every other
character stands for itself, so folding never changes how many characters a text has.
-/

namespace Spreadsheet.Text

/-- Lower-cases the ASCII letters of a text and leaves every other character alone. -/
def foldAscii (s : String) : String :=
  String.ofList (s.toList.map Char.toLower)

/-- Two texts that differ at most in the case of ASCII letters. -/
def sameAscii (s t : String) : Bool :=
  foldAscii s == foldAscii t

/-- `none` unless `cs` starts with `expected`, ASCII case aside; then what was matched and the rest. -/
def splitAsciiStart : (expected cs : List Char) → Option (List Char × List Char)
  | [], cs => some ([], cs)
  | _ :: _, [] => none
  | e :: es, c :: cs =>
    if e.toLower = c.toLower then
      (splitAsciiStart es cs).map fun (matched, rest) => (c :: matched, rest)
    else none

@[simp]
theorem toList_foldAscii (s : String) : (foldAscii s).toList = s.toList.map Char.toLower := by
  simp [foldAscii]

theorem length_foldAscii (s : String) : (foldAscii s).length = s.length := by
  rw [← String.length_toList, ← String.length_toList, toList_foldAscii, List.length_map]

theorem sameAscii_refl (s : String) : sameAscii s s = true := by
  simp [sameAscii]

/-- A successful match splits the text without losing a character. -/
theorem splitAsciiStart_append {expected cs matched rest : List Char}
    (h : splitAsciiStart expected cs = some (matched, rest)) : cs = matched ++ rest := by
  induction expected generalizing cs matched rest with
  | nil => simp only [splitAsciiStart, Option.some.injEq, Prod.mk.injEq] at h; simp [← h.1, ← h.2]
  | cons e es ih =>
    cases cs with
    | nil => simp [splitAsciiStart] at h
    | cons c cs =>
      simp only [splitAsciiStart] at h
      split at h
      · obtain ⟨⟨m, r⟩, hm, heq⟩ := Option.map_eq_some_iff.1 h
        simp only [Prod.mk.injEq] at heq
        rw [← heq.1, ← heq.2, ih hm, List.cons_append]
      · simp at h

/-- What was matched is as long as what was expected. -/
theorem length_of_splitAsciiStart {expected cs matched rest : List Char}
    (h : splitAsciiStart expected cs = some (matched, rest)) :
    matched.length = expected.length := by
  induction expected generalizing cs matched rest with
  | nil => simp only [splitAsciiStart, Option.some.injEq, Prod.mk.injEq] at h; simp [← h.1]
  | cons e es ih =>
    cases cs with
    | nil => simp [splitAsciiStart] at h
    | cons c cs =>
      simp only [splitAsciiStart] at h
      split at h
      · obtain ⟨⟨m, r⟩, hm, heq⟩ := Option.map_eq_some_iff.1 h
        simp only [Prod.mk.injEq] at heq
        rw [← heq.1, List.length_cons, ih hm, List.length_cons]
      · simp at h

end Spreadsheet.Text
