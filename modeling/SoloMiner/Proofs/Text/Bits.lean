import Mathlib.Algebra.Ring.Nat

/-! # Bits of bytes

    To cut a byte, to shift it and to put two of them together is to divide, to multiply and to
    add, as long as no bits meet. What is too small for that is checked byte by byte. -/

namespace SoloMiner.Bits

/-- What can be checked of each of the 256 bytes holds of all bytes. -/
theorem forall_byte {P : UInt8 → Prop} (h : ∀ n : Fin 256, P (UInt8.ofNat n)) (v : UInt8) :
    P v := by
  have hv := h ⟨v.toNat, v.toNat_lt⟩
  rwa [UInt8.ofNat_toNat] at hv

/-- Numbers whose bits lie apart are added. -/
theorem or_eq_add {x y : Nat} (k : Nat) (hx : x % 2 ^ k = 0) (hy : y < 2 ^ k) :
    x ||| y = x + y := by
  have hmul : 2 ^ k * (x / 2 ^ k) = x := by
    rw [← Nat.add_zero (_ * _), ← hx, Nat.div_add_mod]
  rw [← hmul, Nat.two_pow_add_eq_or_of_lt hy]

theorem toNat_or_of_lt {x y : UInt8} (k : Nat) (hx : x.toNat % 2 ^ k = 0)
    (hy : y.toNat < 2 ^ k) : (x ||| y).toNat = x.toNat + y.toNat := by
  rw [UInt8.toNat_or, or_eq_add k hx hy]

theorem toNat_and_mask (v : UInt8) {mask : UInt8} (k : Nat) (hmask : mask.toNat = 2 ^ k - 1) :
    (v &&& mask).toNat = v.toNat % 2 ^ k := by
  rw [UInt8.toNat_and, hmask, Nat.and_two_pow_sub_one_eq_mod]

theorem toNat_shiftLeft (v : UInt8) {n : UInt8} (hn : n.toNat < 8) :
    (v <<< n).toNat = v.toNat * 2 ^ n.toNat % 256 := by
  rw [UInt8.toNat_shiftLeft, Nat.mod_eq_of_lt hn, Nat.shiftLeft_eq]

theorem toNat_shiftRight (v : UInt8) {n : UInt8} (hn : n.toNat < 8) :
    (v >>> n).toNat = v.toNat / 2 ^ n.toNat := by
  rw [UInt8.toNat_shiftRight, Nat.mod_eq_of_lt hn, Nat.shiftRight_eq_div_pow]

end SoloMiner.Bits
