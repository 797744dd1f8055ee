import SoloMiner.Proofs.Encoding.Base64

/-! # Canonicity of base64

    A text that can be decoded is the text that encoding writes: no two texts stand for the
    same bytes. This is where the decoder's strictness is needed. A sextet comes back from the
    bytes it was spread over, and the bits that padding leaves unused come back as zeros. -/

namespace SoloMiner.Base64

open Bits

/-! ## Alphabet -/

set_option maxRecDepth 4000 in
theorem symbol_of_value? {c v : UInt8} (h : value? c = some v) : v < 64 ∧ symbol v = c :=
  forall_byte (P := fun c => ∀ v ∈ value? c, v < 64 ∧ symbol v = c) (by decide) c v h

/-! ## Bytes from sextets -/

variable {v w x y : UInt8}

/-- The first byte of four sextets. -/
theorem toNat_high (hv : v < 64) (hw : w < 64) :
    (v <<< 2 ||| w >>> 4).toNat = v.toNat * 4 + w.toNat / 16 := by
  have hv : v.toNat < 64 := UInt8.lt_iff_toNat_lt.mp hv
  have hw : w.toNat < 64 := UInt8.lt_iff_toNat_lt.mp hw
  have hleft : (v <<< 2).toNat = v.toNat * 4 := by
    rw [toNat_shiftLeft v (by decide)]
    show v.toNat * 4 % 256 = _
    omega
  have hright : (w >>> 4).toNat = w.toNat / 16 := toNat_shiftRight w (by decide)
  rw [toNat_or_of_lt 2 (by omega) (by omega), hleft, hright]

/-- The second byte of four sextets: what the second sextet has for the first byte is shifted
    out. -/
theorem toNat_middle (hx : x < 64) :
    (w <<< 4 ||| x >>> 2).toNat = w.toNat % 16 * 16 + x.toNat / 4 := by
  have hx : x.toNat < 64 := UInt8.lt_iff_toNat_lt.mp hx
  have hleft : (w <<< 4).toNat = w.toNat % 16 * 16 := by
    rw [toNat_shiftLeft w (by decide)]
    show w.toNat * 16 % 256 = _
    omega
  have hright : (x >>> 2).toNat = x.toNat / 4 := toNat_shiftRight x (by decide)
  rw [toNat_or_of_lt 4 (by omega) (by omega), hleft, hright]

theorem toNat_low (hy : y < 64) : (x <<< 6 ||| y).toNat = x.toNat % 4 * 64 + y.toNat := by
  have hy : y.toNat < 64 := UInt8.lt_iff_toNat_lt.mp hy
  have hleft : (x <<< 6).toNat = x.toNat % 4 * 64 := by
    rw [toNat_shiftLeft x (by decide)]
    show x.toNat * 64 % 256 = _
    omega
  rw [toNat_or_of_lt 6 (by omega) (by omega), hleft]

/-! ## Sextets from bytes -/

theorem first_sextet (hv : v < 64) (hw : w < 64) : (v <<< 2 ||| w >>> 4) >>> 2 = v := by
  have hwlt : w.toNat < 64 := UInt8.lt_iff_toNat_lt.mp hw
  apply UInt8.toNat.inj
  rw [toNat_first, toNat_high hv hw]
  omega

theorem second_sextet (hv : v < 64) (hw : w < 64) (hx : x < 64) :
    (((v <<< 2 ||| w >>> 4) &&& 3) <<< 4) ||| ((w <<< 4 ||| x >>> 2) >>> 4) = w := by
  have hwlt : w.toNat < 64 := UInt8.lt_iff_toNat_lt.mp hw
  have hxlt : x.toNat < 64 := UInt8.lt_iff_toNat_lt.mp hx
  apply UInt8.toNat.inj
  rw [toNat_second, toNat_high hv hw, toNat_middle hx]
  omega

theorem third_sextet (hx : x < 64) (hy : y < 64) :
    (((w <<< 4 ||| x >>> 2) &&& 15) <<< 2) ||| ((x <<< 6 ||| y) >>> 6) = x := by
  have hxlt : x.toNat < 64 := UInt8.lt_iff_toNat_lt.mp hx
  have hylt : y.toNat < 64 := UInt8.lt_iff_toNat_lt.mp hy
  apply UInt8.toNat.inj
  rw [toNat_third, toNat_middle hx, toNat_low hy]
  omega

theorem fourth_sextet (hy : y < 64) : (x <<< 6 ||| y) &&& 63 = y := by
  have hylt : y.toNat < 64 := UInt8.lt_iff_toNat_lt.mp hy
  apply UInt8.toNat.inj
  rw [toNat_fourth, toNat_low hy]
  omega

/-- A second sextet with no bits for a second byte is made of the first byte alone. The decoder
    refuses any other here. -/
theorem second_sextet_alone (hv : v < 64) (hw : w < 64) (hunused : w &&& 15 = 0) :
    ((v <<< 2 ||| w >>> 4) &&& 3) <<< 4 = w := by
  have hwlt : w.toNat < 64 := UInt8.lt_iff_toNat_lt.mp hw
  have hzero : w.toNat % 16 = 0 := by
    have hmask := toNat_and_mask w 4 (show (15 : UInt8).toNat = 2 ^ 4 - 1 from rfl)
    rw [hunused] at hmask
    exact hmask.symm
  have hpart : ((v <<< 2 ||| w >>> 4) &&& 3).toNat = w.toNat / 16 := by
    rw [toNat_and_mask _ 2 rfl, toNat_high hv hw]
    omega
  apply UInt8.toNat.inj
  rw [toNat_shiftLeft _ (by decide), hpart]
  show w.toNat / 16 * 16 % 256 = _
  omega

/-- A third sextet with no bits for a third byte is made of the second byte alone. -/
theorem third_sextet_alone (hx : x < 64) (hunused : x &&& 3 = 0) :
    ((w <<< 4 ||| x >>> 2) &&& 15) <<< 2 = x := by
  have hxlt : x.toNat < 64 := UInt8.lt_iff_toNat_lt.mp hx
  have hzero : x.toNat % 4 = 0 := by
    have hmask := toNat_and_mask x 2 (show (3 : UInt8).toNat = 2 ^ 2 - 1 from rfl)
    rw [hunused] at hmask
    exact hmask.symm
  have hpart : ((w <<< 4 ||| x >>> 2) &&& 15).toNat = x.toNat / 4 := by
    rw [toNat_and_mask _ 4 rfl, toNat_middle hx]
    omega
  apply UInt8.toNat.inj
  rw [toNat_shiftLeft _ (by decide), hpart]
  show x.toNat / 4 * 4 % 256 = _
  omega

/-! ## Groups -/

/-- Four characters that are accepted in the middle of a text are those of their three bytes. -/
theorem group3_of_inner? {p q r s : UInt8} {bs : Bytes} (h : inner? p q r s = some bs) :
    ∃ a b c, bs = [a, b, c] ∧ group3 a b c = [p, q, r, s] := by
  simp only [inner?, Option.bind_eq_bind, Option.bind_eq_some_iff] at h
  obtain ⟨v, hp, w, hq, x, hr, y, hs, h⟩ := h
  obtain ⟨hv, rfl⟩ := symbol_of_value? hp
  obtain ⟨hw, rfl⟩ := symbol_of_value? hq
  obtain ⟨hx, rfl⟩ := symbol_of_value? hr
  obtain ⟨hy, rfl⟩ := symbol_of_value? hs
  refine ⟨_, _, _, (Option.some.inj h).symm, ?_⟩
  rw [group3, first_sextet hv hw, second_sextet hv hw hx, third_sextet hx hy, fourth_sextet hy]

theorem of_guard {p : Prop} [Decidable p] {u : Unit} (h : (guard p : Option Unit) = some u) :
    p := by
  by_contra hp
  have hnone : (guard p : Option Unit) = none := if_neg hp
  rw [hnone] at h
  cases h

/-- The last four characters are those of the bytes they give, be these one, two or three. -/
theorem encode_of_closing? {p q r s : UInt8} {bs : Bytes} (h : closing? p q r s = some bs) :
    encode bs = [p, q, r, s] := by
  unfold closing? at h
  obtain ⟨v, hp, hbehind⟩ := Option.bind_eq_some_iff.mp h
  obtain ⟨w, hq, hend⟩ := Option.bind_eq_some_iff.mp hbehind
  obtain ⟨hv, rfl⟩ := symbol_of_value? hp
  obtain ⟨hw, rfl⟩ := symbol_of_value? hq
  by_cases hr : r = filler
  · -- one byte
    rw [if_pos hr] at hend
    obtain ⟨u, hguard, hbs⟩ := Option.bind_eq_some_iff.mp hend
    obtain ⟨rfl, hunused⟩ := of_guard hguard
    obtain rfl := Option.some.inj hbs
    show group1 _ = _
    rw [group1, first_sextet hv hw, second_sextet_alone hv hw hunused, hr]
  · rw [if_neg hr] at hend
    obtain ⟨x, hthird, hrest⟩ := Option.bind_eq_some_iff.mp hend
    obtain ⟨hx, rfl⟩ := symbol_of_value? hthird
    by_cases hs : s = filler
    · -- two bytes
      rw [if_pos hs] at hrest
      obtain ⟨u, hguard, hbs⟩ := Option.bind_eq_some_iff.mp hrest
      have hunused := of_guard hguard
      obtain rfl := Option.some.inj hbs
      show group2 _ _ = _
      rw [group2, first_sextet hv hw, second_sextet hv hw hx, third_sextet_alone hx hunused, hs]
    · -- three bytes
      rw [if_neg hs] at hrest
      obtain ⟨y, hfourth, hbs⟩ := Option.bind_eq_some_iff.mp hrest
      obtain ⟨hy, rfl⟩ := symbol_of_value? hfourth
      obtain rfl := Option.some.inj hbs
      show group3 _ _ _ = _
      rw [group3, first_sextet hv hw, second_sextet hv hw hx, third_sextet hx hy,
        fourth_sextet hy]

/-! ## Texts -/

/-- What is decoded behind the bytes `acc` is encoded to the text that was read. -/
theorem encode_of_decodeFrom? {acc cs out : Bytes} (h : decodeFrom? acc cs = some out) :
    ∃ bs, out = acc.reverse ++ bs ∧ encode bs = cs := by
  fun_induction decodeFrom? acc cs with
  | case1 acc =>
    obtain rfl := Option.some.inj h
    exact ⟨[], (List.append_nil _).symm, rfl⟩
  | case2 acc p q r s =>
    obtain ⟨bs, hbs, rfl⟩ := Option.map_eq_some_iff.mp h
    exact ⟨bs, by simp, encode_of_closing? hbs⟩
  -- a group in the middle, and what is decoded behind it
  | case3 acc p q r s rest hmore bs hinner ih =>
    obtain ⟨a, b, c, rfl, hgroup⟩ := group3_of_inner? hinner
    obtain ⟨bs, rfl, hrest⟩ := ih h
    refine ⟨a :: b :: c :: bs, by simp, ?_⟩
    rw [encode_cons, hgroup, hrest]
    rfl
  | case4 => cases h
  | case5 => cases h

/-- Encoding undoes decoding. -/
theorem encode_of_decode? {cs bs : Bytes} (h : decode? cs = some bs) : encode bs = cs := by
  obtain ⟨bs', rfl, hencode⟩ := encode_of_decodeFrom? h
  exact hencode

end SoloMiner.Base64
