/-!
# Cutting text at bytes

Offsets into a formula count the bytes of its encoding. A text is cut at such an offset by counting the
bytes of its characters from the front; both parts together are the text.
-/

namespace Spreadsheet.Text

/-- The characters that begin in the first `n` bytes. -/
def takeBytes : (n : Nat) → List Char → List Char
  | _, [] => []
  | n, c :: cs => if n = 0 then [] else c :: takeBytes (n - c.utf8Size) cs

/-- The characters behind the first `n` bytes. -/
def dropBytes : (n : Nat) → List Char → List Char
  | _, [] => []
  | n, c :: cs => if n = 0 then c :: cs else dropBytes (n - c.utf8Size) cs

@[simp]
theorem takeBytes_append_dropBytes (n : Nat) (cs : List Char) :
    takeBytes n cs ++ dropBytes n cs = cs := by
  induction cs generalizing n with
  | nil => rfl
  | cons c cs ih =>
    unfold takeBytes dropBytes
    split <;> simp [ih]

/-- How many bytes some characters take. -/
def byteLength : List Char → Nat
  | [] => 0
  | c :: cs => c.utf8Size + byteLength cs

theorem takeBytes_byteLength (a b : List Char) : takeBytes (byteLength a) (a ++ b) = a := by
  induction a with
  | nil => cases b <;> simp [takeBytes, byteLength]
  | cons c a ih =>
    have hc : 0 < c.utf8Size := c.utf8Size_pos
    have hsum : byteLength (c :: a) = c.utf8Size + byteLength a := rfl
    rw [List.cons_append, takeBytes, if_neg (by omega), hsum, Nat.add_sub_cancel_left, ih]

theorem dropBytes_byteLength (a b : List Char) : dropBytes (byteLength a) (a ++ b) = b := by
  have h := takeBytes_append_dropBytes (byteLength a) (a ++ b)
  rw [takeBytes_byteLength] at h
  exact List.append_cancel_left h

end Spreadsheet.Text
