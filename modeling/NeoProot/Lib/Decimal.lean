import Mathlib.Data.Nat.Digits.Lemmas
import Mathlib.Tactic.NormNum

/-!
# Decimal numbers as bytes

A number in decimal, and what a reader of digits makes of a text.

## Main definitions

* `decimal n` — the digits of `n`, the first one most significant.
* `valueOf digits` — the number that digits spell.
* `readDigits text` — the leading digits of a text and the rest.
-/

namespace NeoProot.Decimal

/-- The digits of a number; zero has one. -/
def decimal (n : ℕ) : List UInt8 :=
  if n = 0 then [48] else (Nat.digits 10 n).reverse.map fun d => UInt8.ofNat (48 + d)

def isDigit (b : UInt8) : Bool := 48 ≤ b.toNat && b.toNat ≤ 57

/-- The number that digits spell. -/
def valueOf (digits : List UInt8) : ℕ :=
  digits.foldl (fun value b => 10 * value + (b.toNat - 48)) 0

/-- The leading digits of a text, and what follows them. -/
def readDigits (text : List UInt8) : List UInt8 × List UInt8 :=
  (text.takeWhile isDigit, text.dropWhile isDigit)

private theorem toNat_digit {d : ℕ} (h : d < 10) : (UInt8.ofNat (48 + d)).toNat = 48 + d :=
  UInt8.toNat_ofNat_of_lt (by simp only [UInt8.size]; omega)

theorem decimal_ne_nil (n : ℕ) : decimal n ≠ [] := by
  by_cases h : n = 0
  · simp [decimal, h]
  · simp [decimal, h, Nat.digits_ne_nil_iff_ne_zero]

theorem isDigit_of_mem_decimal {n : ℕ} {b : UInt8} (h : b ∈ decimal n) : isDigit b = true := by
  by_cases hn : n = 0
  · rw [decimal, if_pos hn, List.mem_singleton] at h
    rw [h]
    rfl
  · rw [decimal, if_neg hn, List.mem_map] at h
    obtain ⟨d, hd, rfl⟩ := h
    have hlt : d < 10 := Nat.digits_lt_base (by norm_num) (List.mem_reverse.1 hd)
    simp only [isDigit, toNat_digit hlt, Bool.and_eq_true, decide_eq_true_eq]
    omega

/-- The digits of a number spell it. -/
theorem valueOf_decimal (n : ℕ) : valueOf (decimal n) = n := by
  by_cases hn : n = 0
  · rw [decimal, if_pos hn, hn]
    rfl
  · have hfold : ∀ ds : List ℕ, (∀ d ∈ ds, d < 10) →
        (ds.map fun d => UInt8.ofNat (48 + d)).foldr
          (fun b value => 10 * value + (b.toNat - 48)) 0 = Nat.ofDigits 10 ds := by
      intro ds hds
      induction ds with
      | nil => rfl
      | cons d ds ih =>
        rw [List.map_cons, List.foldr_cons, ih fun e he => hds e (List.mem_cons_of_mem d he),
          toNat_digit (hds d List.mem_cons_self), Nat.ofDigits_cons]
        omega
    rw [decimal, if_neg hn, valueOf, List.map_reverse, List.foldl_reverse,
      hfold _ fun d hd => Nat.digits_lt_base (by norm_num) hd, Nat.ofDigits_digits]

/-- A number below `10 ^ k` has at most `k` digits. -/
theorem length_decimal_le {n k : ℕ} (hk : 0 < k) (h : n < 10 ^ k) : (decimal n).length ≤ k := by
  by_cases hn : n = 0
  · rw [decimal, if_pos hn]
    exact hk
  · rw [decimal, if_neg hn, List.length_map, List.length_reverse]
    exact (Nat.digits_length_le_iff (by norm_num) n).2 h

/-- The digits of a number are read back before anything that is not a digit. -/
theorem readDigits_decimal {n : ℕ} {rest : List UInt8} (h : ∀ b ∈ rest.head?, isDigit b = false) :
    readDigits (decimal n ++ rest) = (decimal n, rest) := by
  have hall : ∀ b ∈ decimal n, isDigit b = true := fun b hb => isDigit_of_mem_decimal hb
  rw [readDigits, List.takeWhile_append_of_pos hall, List.dropWhile_append_of_pos hall]
  cases rest with
  | nil => simp
  | cons b rest =>
    have hb : isDigit b = false := h b rfl
    simp [hb]

/-- No byte of a number is below the digits. -/
theorem not_mem_decimal {n : ℕ} {b : UInt8} (hb : isDigit b = false) : b ∉ decimal n := by
  intro h
  rw [isDigit_of_mem_decimal h] at hb
  cases hb

end NeoProot.Decimal
