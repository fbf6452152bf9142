import Mathlib.Data.Nat.Notation
import Mathlib.Data.List.Basic

/-!
# Octal escapes

A field of a text is written with its special characters as a backslash and three octal
digits, so that the separators of the text do not stand in it.  The backslash has to be one
of them.

## Main definitions

* `octal c` — a character as an escape.
* `escape special s` — a field with its special characters escaped.
* `unescape s` — what a reader makes of a field.
-/

namespace NeoProot.Octal

/-- The character of an octal digit. -/
def digit (n : ℕ) : Char := Char.ofNat ('0'.toNat + n % 8)

/-- A character as an escape. -/
def octal (c : Char) : List Char :=
  ['\\', digit (c.toNat / 64), digit (c.toNat / 8), digit c.toNat]

/-- A field with its special characters escaped. -/
def escape (special : Char → Bool) (s : List Char) : List Char :=
  s.flatMap fun c => if special c then octal c else [c]

def isOctalDigit (c : Char) : Bool := '0' ≤ c && c ≤ '7'

/-- The value of an octal digit. -/
def digitValue (c : Char) : ℕ := c.toNat - '0'.toNat

/-- What a reader makes of a field. -/
def unescape : List Char → List Char
  | [] => []
  | '\\' :: a :: b :: c :: s =>
    if isOctalDigit a && isOctalDigit b && isOctalDigit c then
      Char.ofNat (64 * digitValue a + 8 * digitValue b + digitValue c) :: unescape s
    else '\\' :: unescape (a :: b :: c :: s)
  | c :: s => c :: unescape s

variable {special : Char → Bool}

/-! ### Digits -/

theorem toNat_digit (n : ℕ) : (digit n).toNat = '0'.toNat + n % 8 := by
  have hlt : n % 8 < 8 := Nat.mod_lt n (by decide)
  unfold digit
  generalize n % 8 = m at hlt
  revert m
  decide

theorem isOctalDigit_digit (n : ℕ) : isOctalDigit (digit n) = true := by
  have hlt : n % 8 < 8 := Nat.mod_lt n (by decide)
  unfold digit
  generalize n % 8 = m at hlt
  revert m
  decide

theorem digitValue_digit (n : ℕ) : digitValue (digit n) = n % 8 := by
  rw [digitValue, toNat_digit, Nat.add_sub_cancel_left]

/-- A digit is nothing that has to be escaped where no digit is special. -/
theorem digit_ne {c : Char} (h : isOctalDigit c = false) (n : ℕ) : digit n ≠ c := by
  intro heq
  rw [← heq, isOctalDigit_digit] at h
  cases h

/-! ### Reading an escaped field -/

theorem unescape_octal {c : Char} (h : c.toNat < 512) (s : List Char) :
    unescape (octal c ++ s) = c :: unescape s := by
  have hvalue : 64 * (c.toNat / 64 % 8) + 8 * (c.toNat / 8 % 8) + c.toNat % 8 = c.toNat := by omega
  simp only [octal, List.cons_append, List.nil_append, unescape, isOctalDigit_digit, Bool.and_self,
    if_true, digitValue_digit, hvalue, Char.ofNat_toNat]

theorem unescape_cons_of_ne {c : Char} (h : c ≠ '\\') (s : List Char) :
    unescape (c :: s) = c :: unescape s := by
  rw [unescape.eq_def]
  split
  · rename_i heq
    cases heq
  · rename_i heq
    rw [List.cons.injEq] at heq
    exact absurd heq.1 h
  · rename_i heq
    rw [List.cons.injEq] at heq
    rw [heq.1, heq.2]

theorem escape_cons (c : Char) (s : List Char) :
    escape special (c :: s) = (if special c then octal c else [c]) ++ escape special s := rfl

/-- A reader gets the field back. -/
theorem unescape_escape (hback : special '\\' = true)
    (hspecial : ∀ c, special c = true → c.toNat < 512) (s : List Char) :
    unescape (escape special s) = s := by
  induction s with
  | nil => rfl
  | cons c s ih =>
    rw [escape_cons]
    by_cases hc : special c = true
    · rw [if_pos hc, unescape_octal (hspecial c hc), ih]
    · have hne : c ≠ '\\' := fun heq => hc (heq ▸ hback)
      rw [if_neg hc, List.singleton_append, unescape_cons_of_ne hne, ih]

/-- What is escaped does not stand in the field. -/
theorem notMem_escape {c : Char} (hc : special c = true) (hne : c ≠ '\\')
    (hdigit : isOctalDigit c = false) (s : List Char) : c ∉ escape special s := by
  intro hmem
  rw [escape, List.mem_flatMap] at hmem
  obtain ⟨d, -, hmem⟩ := hmem
  by_cases hd : special d = true
  · rw [if_pos hd] at hmem
    simp only [octal, List.mem_cons, List.not_mem_nil, or_false] at hmem
    obtain heq | heq | heq | heq := hmem
    · exact hne heq
    · exact digit_ne hdigit _ heq.symm
    · exact digit_ne hdigit _ heq.symm
    · exact digit_ne hdigit _ heq.symm
  · rw [if_neg hd, List.mem_singleton] at hmem
    exact hd (hmem ▸ hc)

end NeoProot.Octal
