import Spreadsheet.Text.Case

/-!
# Lower case: lowering twice is lowering once

Names are found by their lower case, and the keys under which they are kept are lowered again when their
readers are looked up. So it matters that lowering changes nothing in a text that was lowered before
(`lower_lower`).

The reason is in the tables: no run of codes leads into another run or into itself. With intervals in
place of codes this is a comparison of all pairs of runs (`runsApart`), which is settled by computation.
-/

namespace Spreadsheet.Text

/-! ### The tables -/

/-- Evenly spaced codes from `first` to `last` are not among those of a run. Behind or before it, or in
its gaps. -/
def missesRun (first last step : Nat) (q : CodeRun) : Bool :=
  Nat.blt q.last first || Nat.blt last q.first ||
    ((Nat.beq step 2 || Nat.beq first last) && Nat.beq q.step 2 && Nat.beq ((first + q.first) % 2) 1)

/-- Evenly spaced codes are characters, and neither capital letters that the runs leave out nor the one
letter whose lower case is a list. -/
def arePlain (first last : Nat) : Bool :=
  Nat.blt 90 first && (Nat.blt last 304 || Nat.blt 304 first) && (Nat.blt last 931 || Nat.blt 931 first) &&
    (Nat.blt last 0xD800 || (Nat.blt 0xDFFF first && Nat.blt last 0x110000))

/-- The codes that a run leads to are characters without a lower case of their own. -/
def leadsOut (r : CodeRun) : Bool :=
  let first := (r.first + r.shift).toNat
  let last := (r.last + r.shift).toNat
  decide (0 ≤ r.first + r.shift) && arePlain first last && lowerRuns.all (missesRun first last r.step)

set_option maxRecDepth 10000 in
theorem runsApart : lowerRuns.all leadsOut = true := by decide +kernel

theorem not_mem_run {first last step m : Nat} {q : CodeRun} (h : missesRun first last step q = true)
    (hfirst : first ≤ m) (hlast : m ≤ last) (hstep : (m - first) % step = 0) :
    (q.first ≤ m && m ≤ q.last && (m - q.first) % q.step == 0) = false := by
  unfold missesRun at h
  simp only [Bool.or_eq_true, Bool.and_eq_true, Nat.blt_eq, Nat.beq_eq] at h
  rw [Bool.eq_false_iff]
  intro hm
  simp only [Bool.and_eq_true, decide_eq_true_eq, beq_iff_eq] at hm
  obtain ⟨⟨hq₁, hq₂⟩, hq₃⟩ := hm
  rcases h with (h | h) | ⟨⟨h₁, h₂⟩, h₃⟩
  · omega
  · omega
  · rw [h₂] at hq₃
    rcases h₁ with h₁ | h₁
    · rw [h₁] at hstep
      omega
    · omega

/-! ### Characters that lowering leaves alone -/

/-- A character that is its own lower case. -/
structure IsLower (c : Char) : Prop where
  not_sigma : c ≠ 'Σ'
  lower_eq : lowerChar c = [c]

theorem toNat_ofNat {m : Nat} (h : m.isValidChar) : (Char.ofNat m).toNat = m := by
  unfold Char.ofNat
  rw [dif_pos h]
  rfl

/-- Lowering an ASCII character twice is lowering it once, and those above the capitals stay. -/
theorem ascii_lower : ∀ n < 128, (Char.ofNat n).toLower ≠ 'Σ' ∧
    lowerChar (Char.ofNat n).toLower = [(Char.ofNat n).toLower] ∧
    (90 < n → (Char.ofNat n).toLower = Char.ofNat n) := by
  decide

/-- Above the capital letters, what the tables leave alone is its own lower case. -/
theorem isLower_of_code {m : Nat} (hplain : arePlain m m = true) (hruns : CodeRun.apply lowerRuns m = m) :
    IsLower (Char.ofNat m) := by
  unfold arePlain at hplain
  simp only [Bool.and_eq_true, Bool.or_eq_true, Nat.blt_eq] at hplain
  obtain ⟨⟨⟨h₁, h₂⟩, h₃⟩, h₄⟩ := hplain
  have hcode : (Char.ofNat m).toNat = m := by
    apply toNat_ofNat
    unfold Nat.isValidChar
    omega
  constructor
  · intro heq
    have hsigma : (Char.ofNat m).toNat = 931 := by rw [heq]; rfl
    omega
  · unfold lowerChar
    split
    · next hascii =>
      rw [hcode] at hascii
      rw [(ascii_lower m hascii).2.2 h₁]
    · unfold mapCase
      rw [hcode, hruns]
      have hlists : lowerLists.find? (fun entry => entry.1 == m) = none := by
        unfold lowerLists
        rw [List.find?_cons_of_neg, List.find?_nil]
        simp only [beq_iff_eq]
        omega
      rw [hlists]

/-- **What a run leads to is its own lower case.** -/
theorem isLower_of_run {r : CodeRun} (hr : r ∈ lowerRuns) {n : Nat} (hfirst : r.first ≤ n)
    (hlast : n ≤ r.last) (hstep : (n - r.first) % r.step = 0) :
    IsLower (Char.ofNat (n + r.shift).toNat) := by
  have hout := List.all_eq_true.mp runsApart r hr
  unfold leadsOut at hout
  simp only [Bool.and_eq_true, decide_eq_true_eq] at hout
  obtain ⟨⟨hpos, hplain⟩, hmisses⟩ := hout
  have hmfirst : (r.first + r.shift).toNat ≤ (n + r.shift).toNat := by omega
  have hmlast : (n + r.shift).toNat ≤ (r.last + r.shift).toNat := by omega
  have hmstep : ((n + r.shift).toNat - (r.first + r.shift).toNat) % r.step = 0 := by
    have hdiff : (n + r.shift).toNat - (r.first + r.shift).toNat = n - r.first := by omega
    rw [hdiff]
    exact hstep
  apply isLower_of_code
  · unfold arePlain at hplain ⊢
    simp only [Bool.and_eq_true, Bool.or_eq_true, Nat.blt_eq] at hplain ⊢
    omega
  · unfold CodeRun.apply
    have hnone : lowerRuns.find? (fun q => q.first ≤ (n + r.shift).toNat && (n + r.shift).toNat ≤ q.last &&
        ((n + r.shift).toNat - q.first) % q.step == 0) = none := by
      rw [List.find?_eq_none]
      intro q hq
      rw [not_mem_run (List.all_eq_true.mp hmisses q hq) hmfirst hmlast hmstep]
      exact Bool.false_ne_true
    rw [hnone]

/-- Whatever lowering a character gives is its own lower case. -/
theorem isLower_of_mem_lowerChar {c d : Char} (hc : c ≠ 'Σ') (hd : d ∈ lowerChar c) : IsLower d := by
  have hself : lowerChar c = [c] → IsLower d := by
    intro heq
    rw [heq] at hd
    obtain rfl := List.mem_singleton.mp hd
    exact ⟨hc, heq⟩
  unfold lowerChar at hd
  split at hd
  · next hascii =>
    obtain rfl := List.mem_singleton.mp hd
    obtain ⟨hsigma, hlower, -⟩ := ascii_lower c.toNat hascii
    rw [Char.ofNat_toNat] at hsigma hlower
    exact ⟨hsigma, hlower⟩
  · next hascii =>
    unfold mapCase at hd
    split at hd
    · next entry hentry =>
      have hlist : ∀ code ∈ [105, 775], IsLower (Char.ofNat code) := by
        intro code hcode
        rcases List.mem_cons.mp hcode with rfl | hcode
        · exact ⟨by decide, by decide⟩
        · obtain rfl := List.mem_singleton.mp hcode
          exact ⟨by decide, by decide +kernel⟩
      obtain ⟨code, hcode, rfl⟩ := List.mem_map.mp hd
      obtain rfl := List.mem_singleton.mp (List.mem_of_find?_eq_some hentry)
      exact hlist code hcode
    · next hlists =>
      unfold CodeRun.apply at hd
      split at hd
      · next r hr =>
        obtain rfl := List.mem_singleton.mp hd
        have hmem := List.mem_of_find?_eq_some hr
        have hcovers := List.find?_some hr
        simp only [Bool.and_eq_true, decide_eq_true_eq, beq_iff_eq] at hcovers
        exact isLower_of_run hmem hcovers.1.1 hcovers.1.2 hcovers.2
      · next hruns =>
        apply hself
        unfold lowerChar mapCase CodeRun.apply
        rw [if_neg hascii, hlists, hruns]
        exact congrArg (fun c => [c]) (Char.ofNat_toNat c)

/-! ### Texts -/

theorem isLower_lowerFrom (before cs : List Char) : ∀ d ∈ lowerFrom before cs, IsLower d := by
  induction cs generalizing before with
  | nil => exact fun d hd => absurd hd List.not_mem_nil
  | cons c cs ih =>
    intro d hd
    unfold lowerFrom at hd
    rcases List.mem_append.mp hd with hd | hd
    · split at hd
      · split at hd
        · obtain rfl := List.mem_singleton.mp hd
          exact ⟨by decide, by decide +kernel⟩
        · obtain rfl := List.mem_singleton.mp hd
          exact ⟨by decide, by decide +kernel⟩
      · next hc => exact isLower_of_mem_lowerChar hc hd
    · exact ih (c :: before) d hd

theorem lowerFrom_of_isLower (before : List Char) {cs : List Char} (h : ∀ d ∈ cs, IsLower d) :
    lowerFrom before cs = cs := by
  induction cs generalizing before with
  | nil => rfl
  | cons c cs ih =>
    obtain ⟨hsigma, hlower⟩ := h c List.mem_cons_self
    unfold lowerFrom
    rw [if_neg hsigma, hlower, ih (c :: before) fun d hd => h d (List.mem_cons_of_mem _ hd)]
    rfl

/-- **Lowering twice is lowering once.** -/
theorem lower_lower (s : String) : lower (lower s) = lower s := by
  unfold lower
  rw [String.toList_ofList, lowerFrom_of_isLower [] (isLower_lowerFrom [] s.toList)]

end Spreadsheet.Text
