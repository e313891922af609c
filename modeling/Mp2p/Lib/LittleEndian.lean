import Mathlib.Data.Nat.Basic
import Mathlib.Tactic.Ring

/-!
# Fixed-width little-endian integers

The memory image of an unsigned integer of `w` bytes, and the integer a memory image stands for.
The two are inverse, on integers that fit and on all images.
-/

namespace LittleEndian

def encode : ℕ → ℕ → List UInt8
  | 0, _ => []
  | w + 1, x => UInt8.ofNat x :: encode w (x / 256)

def decode : List UInt8 → ℕ
  | [] => 0
  | b :: rest => b.toNat + 256 * decode rest

@[simp]
theorem length_encode (w x : ℕ) : (encode w x).length = w := by
  induction w generalizing x with
  | zero => rfl
  | succ w ih => simp [encode, ih]

theorem decode_encode {w x : ℕ} (hx : x < 256 ^ w) : decode (encode w x) = x := by
  induction w generalizing x with
  | zero =>
      rw [pow_zero] at hx
      simp only [encode, decode]
      omega
  | succ w ih =>
      have hdiv : x / 256 < 256 ^ w := by
        rw [pow_succ, mul_comm] at hx
        exact Nat.div_lt_of_lt_mul hx
      rw [encode, decode, ih hdiv, UInt8.toNat_ofNat']
      omega

theorem decode_lt (bytes : List UInt8) : decode bytes < 256 ^ bytes.length := by
  induction bytes with
  | nil => exact Nat.one_pos
  | cons b rest ih =>
      have hb := b.toNat_lt
      rw [decode, List.length_cons, pow_succ]
      omega

theorem encode_decode (bytes : List UInt8) : encode bytes.length (decode bytes) = bytes := by
  induction bytes with
  | nil => rfl
  | cons b rest ih =>
      have hb := b.toNat_lt
      have hlow : UInt8.ofNat (b.toNat + 256 * decode rest) = b := by
        rw [← UInt8.toNat_inj, UInt8.toNat_ofNat']
        omega
      have hhigh : (b.toNat + 256 * decode rest) / 256 = decode rest := by omega
      rw [List.length_cons, decode, encode, hlow, hhigh, ih]

end LittleEndian
