import Mathlib

/-!
# Numbers and keys in a line of text

Integers are written in decimal and read back; a character that is neither a digit nor
the sign does not occur in them, so two integers with such a character between them are
read back, and so is the value behind a key.
-/

namespace Text

/-- The integer that a text is. -/
def readInt (text : List Char) : Option ℤ := (String.ofList text).toInt?

@[simp] theorem readInt_repr (n : ℤ) : readInt n.repr.toList = some n := by
  rw [readInt, String.ofList_toList, Int.toInt?_repr]

theorem isDigit_of_mem {n : ℤ} {c : Char} (h : c ∈ n.repr.toList) :
    c = '-' ∨ c.isDigit = true := by
  have hdigits {m : ℕ} (hm : c ∈ m.repr.toList) : c.isDigit = true := by
    rw [Nat.toList_repr] at hm
    exact Nat.isDigit_of_mem_toDigits (by decide) (by decide) hm
  rw [Int.repr_eq_if] at h
  split at h
  · exact .inr (hdigits h)
  · rw [String.toList_append, List.mem_append] at h
    exact h.imp List.mem_singleton.mp hdigits

theorem notMem_repr {c : Char} (hminus : c ≠ '-') (hdigit : c.isDigit = false) (n : ℤ) :
    c ∉ n.repr.toList := by
  intro h
  rcases isDigit_of_mem h with rfl | hdigit'
  · exact hminus rfl
  · cases hdigit.symm.trans hdigit'

/-- Two integers with `separator` between them. -/
def readPair (separator : Char) (text : List Char) : Option (ℤ × ℤ) :=
  match text.splitOn separator with
  | [first, second] => do
      let m ← readInt first
      let n ← readInt second
      pure (m, n)
  | _ => none

theorem readPair_append {separator : Char} (hminus : separator ≠ '-')
    (hdigit : separator.isDigit = false) (m n : ℤ) :
    readPair separator (m.repr.toList ++ separator :: n.repr.toList) =
      some (m, n) := by
  have hm := notMem_repr hminus hdigit m
  have hn := notMem_repr hminus hdigit n
  have hsplit : (m.repr.toList ++ separator :: n.repr.toList).splitOn separator =
      [m.repr.toList, n.repr.toList] := by
    rw [List.splitOn_append_cons_self_of_not_mem hm, List.splitOn_eq_singleton hn]
  simp [readPair, hsplit]

/-- The value of a field `key=value`. -/
def readField (key : List Char) (field : List Char) : Option (List Char) :=
  match field.splitOn '=' with
  | [name, value] => if name = key then some value else none
  | _ => none

theorem readField_append {key value : List Char} (hkey : '=' ∉ key) (hvalue : '=' ∉ value) :
    readField key (key ++ '=' :: value) = some value := by
  have hsplit : (key ++ '=' :: value).splitOn '=' = [key, value] := by
    rw [List.splitOn_append_cons_self_of_not_mem hkey, List.splitOn_eq_singleton hvalue]
  simp [readField, hsplit]

end Text
