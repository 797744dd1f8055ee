import SoloMiner.Encoding.Base64
import SoloMiner.Proofs.Text.Bits

/-! # Round trip of base64

    Every byte string is read back from its written form. The written form of a group is taken
    apart sextet by sextet. As a number, a sextet is the end of one byte followed by the
    beginning of the next, and a byte comes back from two sextets by division. -/

namespace SoloMiner.Base64

open Bits

/-! ## Alphabet -/

set_option maxRecDepth 4000 in
theorem value?_symbol {v : UInt8} (h : v < 64) : value? (symbol v) = some v := by
  revert h
  exact forall_byte (P := fun v => v < 64 → value? (symbol v) = some v) (by decide) v

set_option maxRecDepth 4000 in
theorem symbol_ne_filler (v : UInt8) : symbol v ≠ filler :=
  forall_byte (P := fun v => symbol v ≠ filler) (by decide) v

set_option maxRecDepth 4000 in
/-- The asterisk is no character of the alphabet. -/
theorem symbol_ne_asterisk (v : UInt8) : symbol v ≠ 42 :=
  forall_byte (P := fun v => symbol v ≠ 42) (by decide) v

/-! ## Sextets -/

theorem toNat_first (a : UInt8) : (a >>> 2).toNat = a.toNat / 4 :=
  toNat_shiftRight a (by decide)

/-- The second sextet has the last two bits of one byte and the first four of the next. -/
theorem toNat_second (a b : UInt8) :
    (((a &&& 3) <<< 4) ||| (b >>> 4)).toNat = a.toNat % 4 * 16 + b.toNat / 16 := by
  have ha : ((a &&& 3) <<< 4).toNat = a.toNat % 4 * 16 := by
    rw [toNat_shiftLeft _ (by decide), toNat_and_mask a 2 rfl]
    show a.toNat % 4 * 16 % 256 = _
    omega
  have hb : (b >>> 4).toNat = b.toNat / 16 := toNat_shiftRight b (by decide)
  have hlt := b.toNat_lt
  rw [toNat_or_of_lt 4 (by omega) (by omega), ha, hb]

/-- The third sextet has the last four bits of one byte and the first two of the next. -/
theorem toNat_third (b c : UInt8) :
    (((b &&& 15) <<< 2) ||| (c >>> 6)).toNat = b.toNat % 16 * 4 + c.toNat / 64 := by
  have hb : ((b &&& 15) <<< 2).toNat = b.toNat % 16 * 4 := by
    rw [toNat_shiftLeft _ (by decide), toNat_and_mask b 4 rfl]
    show b.toNat % 16 * 4 % 256 = _
    omega
  have hc : (c >>> 6).toNat = c.toNat / 64 := toNat_shiftRight c (by decide)
  have hlt := c.toNat_lt
  rw [toNat_or_of_lt 2 (by omega) (by omega), hb, hc]

theorem toNat_fourth (c : UInt8) : (c &&& 63).toNat = c.toNat % 64 := toNat_and_mask c 6 rfl

theorem first_lt (a : UInt8) : a >>> 2 < 64 := by
  have hlt := a.toNat_lt
  rw [UInt8.lt_iff_toNat_lt, toNat_first]
  show a.toNat / 4 < 64
  omega

theorem second_lt (a b : UInt8) : ((a &&& 3) <<< 4) ||| (b >>> 4) < 64 := by
  have hlt := b.toNat_lt
  rw [UInt8.lt_iff_toNat_lt, toNat_second]
  show a.toNat % 4 * 16 + b.toNat / 16 < 64
  omega

theorem third_lt (b c : UInt8) : ((b &&& 15) <<< 2) ||| (c >>> 6) < 64 := by
  have hlt := c.toNat_lt
  rw [UInt8.lt_iff_toNat_lt, toNat_third]
  show b.toNat % 16 * 4 + c.toNat / 64 < 64
  omega

theorem fourth_lt (c : UInt8) : c &&& 63 < 64 := by
  rw [UInt8.lt_iff_toNat_lt, toNat_fourth]
  exact Nat.mod_lt _ (by decide)

/-- A byte is made of its high bits and its low ones. -/
theorem or_eq_of_parts {v x y : UInt8} (k : Nat) (hx : x.toNat = v.toNat / 2 ^ k * 2 ^ k)
    (hy : y.toNat = v.toNat % 2 ^ k) : x ||| y = v := by
  have hhigh : x.toNat % 2 ^ k = 0 := by
    rw [hx]
    exact Nat.mul_mod_left _ _
  have hlow : y.toNat < 2 ^ k := by
    rw [hy]
    exact Nat.mod_lt _ (Nat.two_pow_pos k)
  apply UInt8.toNat.inj
  rw [toNat_or_of_lt k hhigh hlow, hx, hy, Nat.mul_comm, Nat.div_add_mod]

/-- The first two sextets hold the first byte. -/
theorem first_byte (a b : UInt8) :
    (a >>> 2) <<< 2 ||| (((a &&& 3) <<< 4) ||| (b >>> 4)) >>> 4 = a := by
  have ha := a.toNat_lt
  have hb := b.toNat_lt
  refine or_eq_of_parts 2 ?_ ?_
  · rw [toNat_shiftLeft _ (by decide), toNat_first]
    show a.toNat / 4 * 4 % 256 = a.toNat / 4 * 4
    omega
  · rw [toNat_shiftRight _ (by decide), toNat_second]
    show (a.toNat % 4 * 16 + b.toNat / 16) / 16 = a.toNat % 4
    omega

/-- The two sextets in the middle hold the second byte. -/
theorem second_byte (a b c : UInt8) :
    (((a &&& 3) <<< 4) ||| (b >>> 4)) <<< 4 ||| (((b &&& 15) <<< 2) ||| (c >>> 6)) >>> 2 = b := by
  have hb := b.toNat_lt
  have hc := c.toNat_lt
  refine or_eq_of_parts 4 ?_ ?_
  · -- the bits of the byte in front are shifted out
    rw [toNat_shiftLeft _ (by decide), toNat_second]
    show (a.toNat % 4 * 16 + b.toNat / 16) * 16 % 256 = b.toNat / 16 * 16
    omega
  · rw [toNat_shiftRight _ (by decide), toNat_third]
    show (b.toNat % 16 * 4 + c.toNat / 64) / 4 = b.toNat % 16
    omega

theorem third_byte (b c : UInt8) :
    (((b &&& 15) <<< 2) ||| (c >>> 6)) <<< 6 ||| (c &&& 63) = c := by
  have hc := c.toNat_lt
  refine or_eq_of_parts 6 ?_ (toNat_fourth c)
  rw [toNat_shiftLeft _ (by decide), toNat_third]
  show (b.toNat % 16 * 4 + c.toNat / 64) * 64 % 256 = c.toNat / 64 * 64
  omega

/-! ## Groups -/

theorem inner?_group3 (a b c : UInt8) :
    inner? (symbol (a >>> 2)) (symbol (((a &&& 3) <<< 4) ||| (b >>> 4)))
      (symbol (((b &&& 15) <<< 2) ||| (c >>> 6))) (symbol (c &&& 63)) = some [a, b, c] := by
  simp only [inner?, value?_symbol (first_lt a), value?_symbol (second_lt a b),
    value?_symbol (third_lt b c), value?_symbol (fourth_lt c)]
  show some _ = _
  rw [first_byte, second_byte, third_byte]

/-- Four characters without padding give three bytes back. -/
theorem closing?_group3 (a b c : UInt8) :
    closing? (symbol (a >>> 2)) (symbol (((a &&& 3) <<< 4) ||| (b >>> 4)))
      (symbol (((b &&& 15) <<< 2) ||| (c >>> 6))) (symbol (c &&& 63)) = some [a, b, c] := by
  rw [closing?, value?_symbol (first_lt a), value?_symbol (second_lt a b),
    value?_symbol (third_lt b c), value?_symbol (fourth_lt c)]
  show (if symbol _ = filler then _ else _) = _
  rw [if_neg (symbol_ne_filler _)]
  show (if symbol _ = filler then _ else _) = _
  rw [if_neg (symbol_ne_filler _)]
  show some _ = _
  rw [first_byte, second_byte, third_byte]

theorem guard_of {p : Prop} [Decidable p] (h : p) : (guard p : Option Unit) = some () :=
  if_pos h

/-- With one padding character, the unused bits of the third sextet are clear, and two bytes come
    back. -/
theorem closing?_group2 (a b : UInt8) :
    closing? (symbol (a >>> 2)) (symbol (((a &&& 3) <<< 4) ||| (b >>> 4)))
      (symbol ((b &&& 15) <<< 2)) filler = some [a, b] := by
  have hthird : (b &&& 15) <<< 2 = ((b &&& 15) <<< 2) ||| ((0 : UInt8) >>> 6) := by simp
  have hunused : ((b &&& 15) <<< 2) &&& 3 = 0 := by
    apply UInt8.toNat.inj
    rw [toNat_and_mask _ 2 rfl, hthird, toNat_third]
    show (b.toNat % 16 * 4 + 0 / 64) % 4 = 0
    omega
  have hlt : (b &&& 15) <<< 2 < 64 := hthird ▸ third_lt b 0
  have hsecond := second_byte a b 0
  rw [← hthird] at hsecond
  rw [closing?, value?_symbol (first_lt a), value?_symbol (second_lt a b), value?_symbol hlt]
  show (if symbol _ = filler then _ else _) = _
  rw [if_neg (symbol_ne_filler _)]
  show (guard ((b &&& 15) <<< 2 &&& 3 = 0) >>= fun _ => some _) = _
  rw [guard_of hunused]
  show some _ = _
  rw [first_byte, hsecond]

/-- With two of them, the unused bits of the second sextet are clear, and one byte comes back. -/
theorem closing?_group1 (a : UInt8) :
    closing? (symbol (a >>> 2)) (symbol ((a &&& 3) <<< 4)) filler filler = some [a] := by
  have hsecond : (a &&& 3) <<< 4 = ((a &&& 3) <<< 4) ||| ((0 : UInt8) >>> 4) := by simp
  have hunused : ((a &&& 3) <<< 4) &&& 15 = 0 := by
    apply UInt8.toNat.inj
    rw [toNat_and_mask _ 4 rfl, hsecond, toNat_second]
    show (a.toNat % 4 * 16 + 0 / 16) % 16 = 0
    omega
  have hlt : (a &&& 3) <<< 4 < 64 := hsecond ▸ second_lt a 0
  have hfirst := first_byte a 0
  rw [← hsecond] at hfirst
  rw [closing?, value?_symbol (first_lt a), value?_symbol hlt]
  show (guard (filler = filler ∧ (a &&& 3) <<< 4 &&& 15 = 0) >>= fun _ => some _) = _
  rw [guard_of ⟨rfl, hunused⟩]
  show some _ = _
  rw [hfirst]

/-! ## Texts -/

/-- Induction on the groups of a byte string. -/
@[elab_as_elim]
theorem group_induction {motive : Bytes → Prop} (nil : motive []) (one : ∀ a, motive [a])
    (two : ∀ a b, motive [a, b])
    (more : ∀ a b c rest, motive rest → motive (a :: b :: c :: rest)) : ∀ bs, motive bs
  | [] => nil
  | [a] => one a
  | [a, b] => two a b
  | a :: b :: c :: rest => more a b c rest (group_induction nil one two more rest)

/-- What was written before stays in front. -/
theorem encodeFrom_append (acc acc' bs : Bytes) :
    encodeFrom (acc ++ acc') bs = acc'.reverse ++ encodeFrom acc bs := by
  fun_induction encodeFrom acc bs with
  -- a whole group goes in front of the accumulator, and the rest is written behind it
  | case1 acc a b c rest ih =>
    rw [encodeFrom, ← List.append_assoc]
    exact ih
  | case2 acc a b => simp [encodeFrom]
  | case3 acc a => simp [encodeFrom]
  | case4 acc => simp [encodeFrom]

theorem encode_cons (a b c : UInt8) (rest : Bytes) :
    encode (a :: b :: c :: rest) = group3 a b c ++ encode rest := by
  have h := encodeFrom_append [] (group3 a b c).reverse rest
  rw [List.reverse_reverse] at h
  rw [encode, encodeFrom, List.append_nil]
  exact h

/-- The four characters of a whole group, at the end or in front of others. -/
theorem decodeFrom?_group3 (acc : Bytes) (a b c : UInt8) (rest : Bytes) :
    decodeFrom? acc (group3 a b c ++ rest) = decodeFrom? ([c, b, a] ++ acc) rest := by
  cases rest with
  | nil => simp [group3, decodeFrom?, closing?_group3]
  | cons x rest => simp [group3, decodeFrom?, inner?_group3]

/-- Group by group the decoder finds the bytes that were written, behind what it had before. -/
theorem decodeFrom?_encode (acc bs : Bytes) :
    decodeFrom? acc (encode bs) = some (acc.reverse ++ bs) := by
  induction bs using group_induction generalizing acc with
  | nil => simp [encode, encodeFrom, decodeFrom?]
  | one a => simp [encode, encodeFrom, group1, decodeFrom?, closing?_group1]
  | two a b => simp [encode, encodeFrom, group2, decodeFrom?, closing?_group2]
  | more a b c rest ih =>
    rw [encode_cons, decodeFrom?_group3, ih]
    simp

/-- Decoding undoes encoding. -/
theorem decode?_encode (bs : Bytes) : decode? (encode bs) = some bs :=
  decodeFrom?_encode [] bs

/-! ## Characters and length -/

/-- What is written are characters of the alphabet and padding, and the latter only in a group
    that is begun. -/
theorem of_mem_encode {x : UInt8} {bs : Bytes} (h : x ∈ encode bs) :
    x = filler ∨ ∃ v, x = symbol v := by
  induction bs using group_induction with
  | nil => cases h
  | one a =>
    have h' : x ∈ group1 a := by simpa [encode, encodeFrom] using h
    simp only [group1, List.mem_cons, List.not_mem_nil, or_false, or_self] at h'
    rcases h' with rfl | rfl | rfl
    · exact Or.inr ⟨_, rfl⟩
    · exact Or.inr ⟨_, rfl⟩
    · exact Or.inl rfl
  | two a b =>
    have h' : x ∈ group2 a b := by simpa [encode, encodeFrom] using h
    simp only [group2, List.mem_cons, List.not_mem_nil, or_false] at h'
    rcases h' with rfl | rfl | rfl | rfl
    · exact Or.inr ⟨_, rfl⟩
    · exact Or.inr ⟨_, rfl⟩
    · exact Or.inr ⟨_, rfl⟩
    · exact Or.inl rfl
  | more a b c rest ih =>
    rw [encode_cons] at h
    rcases List.mem_append.mp h with hgroup | hrest
    · simp only [group3, List.mem_cons, List.not_mem_nil, or_false] at hgroup
      rcases hgroup with rfl | rfl | rfl | rfl <;> exact Or.inr ⟨_, rfl⟩
    · exact ih hrest

/-- Three bytes, begun or whole, are four characters. -/
theorem length_encode (bs : Bytes) : (encode bs).length = 4 * ((bs.length + 2) / 3) := by
  induction bs using group_induction with
  | nil => rfl
  | one a => simp [encode, encodeFrom, group1]
  | two a b => simp [encode, encodeFrom, group2]
  | more a b c rest ih =>
    rw [encode_cons, List.length_append, ih]
    simp only [group3, List.length_cons, List.length_nil]
    omega

end SoloMiner.Base64
