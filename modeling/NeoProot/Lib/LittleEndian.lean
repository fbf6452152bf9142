import Mathlib.Data.Nat.Notation
import Mathlib.Algebra.Ring.Nat

/-!
# Numbers in bytes, the lowest first

A number becomes so many bytes, and bytes become a number.

## Main definitions

* `encode`, `decode` — the bytes of a number, and back.
* `decode_encode` — one undoes the other.
* `flatten_encode_at` — a number among the bytes of several.
-/

namespace NeoProot.LittleEndian

/-- The lowest bytes of a number. -/
def encode : ℕ → ℕ → List UInt8
  | 0, _ => []
  | width + 1, n => UInt8.ofNat n :: encode width (n / 256)

/-- The number with these bytes. -/
def decode : List UInt8 → ℕ
  | [] => 0
  | b :: bs => b.toNat + 256 * decode bs

@[simp] theorem length_encode (width n : ℕ) : (encode width n).length = width := by
  induction width generalizing n with
  | zero => rfl
  | succ width ih => rw [encode, List.length_cons, ih]

theorem decode_encode (width n : ℕ) : decode (encode width n) = n % 256 ^ width := by
  induction width generalizing n with
  | zero => rw [encode, decode, Nat.pow_zero, Nat.mod_one]
  | succ width ih =>
    have hbyte : (UInt8.ofNat n).toNat = n % 256 := UInt8.toNat_ofNat'
    have hpow : 256 ^ (width + 1) = 256 * 256 ^ width := Nat.pow_succ'
    rw [encode, decode, ih, hbyte, hpow, Nat.mod_mul]

theorem decode_encode_of_lt {width n : ℕ} (h : n < 256 ^ width) : decode (encode width n) = n := by
  rw [decode_encode, Nat.mod_eq_of_lt h]

theorem decode_lt (bytes : List UInt8) : decode bytes < 256 ^ bytes.length := by
  induction bytes with
  | nil => exact Nat.one_pos
  | cons b bs ih =>
    have hb := b.toNat_lt
    rw [decode, List.length_cons, Nat.pow_succ]
    omega

/-! ### Several numbers -/

theorem length_flatten_encode (width : ℕ) (ns : List ℕ) :
    (ns.map (encode width)).flatten.length = width * ns.length := by
  induction ns with
  | nil => rfl
  | cons n ns ih =>
    rw [List.map_cons, List.flatten_cons, List.length_append, ih, length_encode, List.length_cons,
      Nat.mul_succ, Nat.add_comm]

/-- Where a number stands among the bytes of several. -/
theorem flatten_encode_at {width : ℕ} {ns : List ℕ} {i n : ℕ} (hn : ns[i]? = some n) :
    i * width + width ≤ (ns.map (encode width)).flatten.length ∧
      ((ns.map (encode width)).flatten.drop (i * width)).take width = encode width n := by
  induction ns generalizing i with
  | nil => cases hn
  | cons first ns ih =>
    rw [List.map_cons, List.flatten_cons, List.length_append, length_encode]
    cases i with
    | zero =>
      rw [List.getElem?_cons_zero, Option.some.injEq] at hn
      subst hn
      rw [Nat.zero_mul, List.drop_zero]
      exact ⟨by omega, List.take_left' (length_encode width first)⟩
    | succ i =>
      rw [List.getElem?_cons_succ] at hn
      obtain ⟨hle, hat⟩ := ih hn
      have hsum : (i + 1) * width = (encode width first).length + i * width := by
        rw [length_encode, Nat.succ_mul, Nat.add_comm]
      rw [length_encode] at hsum
      refine ⟨by omega, ?_⟩
      rw [hsum, List.drop_append, length_encode, Nat.add_sub_cancel_left,
        List.drop_eq_nil_of_le (by rw [length_encode]; omega), List.nil_append, hat]

end NeoProot.LittleEndian
