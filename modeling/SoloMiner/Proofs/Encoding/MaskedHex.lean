import SoloMiner.Encoding.MaskedHex
import SoloMiner.Proofs.Text.Bits
import SoloMiner.Proofs.Text.Splitting

/-! # Reading masked hexadecimal text

    Under a known key the text gives away the bytes: the mask comes off when it is laid on
    again, and pairs of digits, with or without dashes, stand at fixed places. -/

namespace SoloMiner.MaskedHex

/-! ## Digits -/

/-- Only the digits of upper-case hexadecimal occur in `text`. -/
def IsUpperHex (text : Bytes) : Prop :=
  ∀ c ∈ text, (48 ≤ c ∧ c ≤ 57) ∨ (65 ≤ c ∧ c ≤ 70)

/-- The four bits of a digit. For characters that are no digits the value does not matter. -/
def digitValue (c : UInt8) : UInt8 := if c < 65 then c - 48 else c - 55

theorem isUpperHex_digit {v : UInt8} (h : v < 16) :
    (48 ≤ digit v ∧ digit v ≤ 57) ∨ (65 ≤ digit v ∧ digit v ≤ 70) := by
  unfold digit
  split
  all_goals
    simp only [UInt8.lt_iff_toNat_lt, UInt8.le_iff_toNat_le, UInt8.toNat_add, UInt8.reduceToNat] at *
    omega

/-- Each half of a byte is one digit. -/
theorem isUpperHex_pair (b : UInt8) : IsUpperHex (pair b) := by
  have hhigh : b >>> 4 < 16 := by
    have hb := b.toNat_lt
    rw [UInt8.lt_iff_toNat_lt, Bits.toNat_shiftRight b (by decide)]
    show b.toNat / 16 < 16
    omega
  have hlow : b &&& 15 < 16 := by
    rw [UInt8.lt_iff_toNat_lt, Bits.toNat_and_mask b 4 rfl]
    exact Nat.mod_lt _ (by decide)
  intro c hc
  rcases List.mem_cons.mp hc with rfl | hc
  · exact isUpperHex_digit hhigh
  · rw [List.mem_singleton.mp hc]
    exact isUpperHex_digit hlow

theorem isUpperHex_plain (bs : Bytes) : IsUpperHex (plain bs) := by
  intro c hc
  obtain ⟨b, -, hb⟩ := List.mem_flatMap.mp hc
  exact isUpperHex_pair b c hb

set_option maxRecDepth 4000 in
theorem digitValue_pair (b : UInt8) :
    digitValue (digit (b >>> 4)) <<< 4 ||| digitValue (digit (b &&& 15)) = b :=
  Bits.forall_byte
    (P := fun b => digitValue (digit (b >>> 4)) <<< 4 ||| digitValue (digit (b &&& 15)) = b)
    (by decide) b

theorem pair_injective : Function.Injective pair := by
  intro b c h
  unfold pair at h
  obtain ⟨hhigh, hrest⟩ := List.cons.inj h
  obtain ⟨hlow, -⟩ := List.cons.inj hrest
  rw [← digitValue_pair b, hhigh, hlow, digitValue_pair c]

/-! ## Pairs -/

theorem plain_injective : Function.Injective plain :=
  flatMap_injective (show 0 < 2 by decide) (fun _ => rfl) pair_injective

/-- A dash in front of each pair. -/
theorem flatMap_dash_injective :
    Function.Injective fun bs : Bytes => bs.flatMap fun b => dash :: pair b := by
  apply flatMap_injective (show 0 < 3 by decide)
  · intro b
    rfl
  · intro b c h
    exact pair_injective (List.cons.inj h).2

/-- The first pair has no dash, and each of the others has one in front. -/
theorem dashed_injective : Function.Injective dashed := by
  intro bs cs h
  cases bs with
  | nil =>
    cases cs with
    | nil => rfl
    | cons c cs => cases h
  | cons b bs =>
    cases cs with
    | nil => cases h
    | cons c cs =>
      simp only [dashed] at h
      have hlength : (pair b).length = (pair c).length := rfl
      obtain ⟨hfirst, hrest⟩ := List.append_inj h hlength
      rw [pair_injective hfirst, flatMap_dash_injective hrest]

theorem render_injective (withDashes : Bool) : Function.Injective (render withDashes) := by
  cases withDashes with
  | false => exact plain_injective
  | true => exact dashed_injective

/-! ## Masks -/

/-- The byte that is laid on next depends on what is left of the key. An empty key lays on
    zeros. -/
theorem exists_maskFrom_cons (key left : Bytes) :
    ∃ k left', ∀ acc c cs,
      maskFrom key left acc (c :: cs) = maskFrom key left' ((c ^^^ k) :: acc) cs := by
  cases left with
  | cons k ks => exact ⟨k, ks, fun _ _ _ => rfl⟩
  -- the key is used up and starts over, unless it has no byte at all
  | nil =>
    cases key with
    | cons k ks => exact ⟨k, ks, fun _ _ _ => rfl⟩
    | nil =>
      refine ⟨0, [], ?_⟩
      intro acc c cs
      rw [UInt8.xor_zero]
      rfl

theorem maskFrom_eq (key left acc cs : Bytes) :
    maskFrom key left acc cs = acc.reverse ++ maskFrom key left [] cs := by
  induction cs generalizing left acc with
  | nil => simp [maskFrom]
  | cons c cs ih =>
    obtain ⟨k, left', hcons⟩ := exists_maskFrom_cons key left
    rw [hcons, hcons, ih, ih _ [_]]
    simp

/-- From any place of the key on, a mask that is laid on twice is taken off: both passes lay the
    same byte on each place. -/
theorem maskFrom_maskFrom (key left cs : Bytes) :
    maskFrom key left [] (maskFrom key left [] cs) = cs := by
  induction cs generalizing left with
  | nil => simp [maskFrom]
  | cons c cs ih =>
    obtain ⟨k, left', hcons⟩ := exists_maskFrom_cons key left
    have hcancel : c ^^^ k ^^^ k = c := by
      rw [UInt8.xor_assoc, UInt8.xor_self, UInt8.xor_zero]
    have hfront : maskFrom key left [] (c :: cs) = (c ^^^ k) :: maskFrom key left' [] cs := by
      rw [hcons, maskFrom_eq]
      rfl
    rw [hfront, hcons, hcancel, maskFrom_eq, ih]
    rfl

theorem mask_injective (key : Bytes) : Function.Injective (mask key) := by
  intro bs cs h
  have htwice := maskFrom_maskFrom key key bs
  unfold mask at h
  rw [h, maskFrom_maskFrom] at htwice
  exact htwice.symm

/-- Under one key no two byte strings have one text. -/
theorem encode_injective (key : Bytes) (withDashes : Bool) :
    Function.Injective fun bs => encode bs key withDashes := by
  intro bs cs h
  exact render_injective withDashes (mask_injective key h)

end SoloMiner.MaskedHex
