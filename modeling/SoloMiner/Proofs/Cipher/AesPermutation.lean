import Mathlib.Data.List.Perm.Subperm
import SoloMiner.Cipher.Aes
import SoloMiner.Proofs.Text.Bits

/-! # The AES block function is injective

    Whatever the round keys, no two blocks are encrypted alike. Seen as four bytes each, the
    columns of the state are moved by a row shift, substituted byte by byte, mixed and
    combined with a key, and every one of these steps can be undone. The mix is undone by
    mixing three times more, for its fourth power is the identity. -/

namespace SoloMiner.Aes

/-! ## Words as columns of bytes -/

/-- Four bytes, the one in the top row first. The rounds of the cipher work on words, and what
    they do to a word is easier to say of its bytes. -/
structure Column where
  (a b c d : UInt8)
  deriving DecidableEq

namespace Column

/-- The bytes of a word, the most significant one first. -/
def ofWord (w : UInt32) : Column :=
  ⟨(byte0 w).toUInt8, (byte1 w).toUInt8, (byte2 w).toUInt8, (byte3 w).toUInt8⟩

def xor (x y : Column) : Column := ⟨x.a ^^^ y.a, x.b ^^^ y.b, x.c ^^^ y.c, x.d ^^^ y.d⟩

/-- Moves every byte down by one row. -/
def down (x : Column) : Column := ⟨x.d, x.a, x.b, x.c⟩

def map (f : UInt8 → UInt8) (x : Column) : Column := ⟨f x.a, f x.b, f x.c, f x.d⟩

theorem map_injective {f : UInt8 → UInt8} (hf : Function.Injective f) :
    Function.Injective (map f) := by
  intro x y h
  simp only [map, mk.injEq] at h
  obtain ⟨ha, hb, hc, hd⟩ := h
  cases x
  cases y
  simp only [mk.injEq]
  exact ⟨hf ha, hf hb, hf hc, hf hd⟩

end Column

/-! ### Bytes of words -/

theorem toNat_byte0 (w : UInt32) : (byte0 w).toUInt8.toNat = w.toNat / 16777216 % 256 := by
  rw [byte0, UInt32.toNat_toUInt8, UInt32.toNat_shiftRight, Nat.shiftRight_eq_div_pow]
  rfl

theorem toNat_lowByte (w : UInt32) : (w &&& 0xff).toUInt8.toNat = w.toNat % 256 := by
  have hmask : (0xff : UInt32).toNat = 2 ^ 8 - 1 := rfl
  rw [UInt32.toNat_toUInt8, UInt32.toNat_and, hmask, Nat.and_two_pow_sub_one_eq_mod, Nat.mod_mod]

theorem toNat_byte1 (w : UInt32) : (byte1 w).toUInt8.toNat = w.toNat / 65536 % 256 := by
  rw [byte1, toNat_lowByte, UInt32.toNat_shiftRight, Nat.shiftRight_eq_div_pow]
  rfl

theorem toNat_byte2 (w : UInt32) : (byte2 w).toUInt8.toNat = w.toNat / 256 % 256 := by
  rw [byte2, toNat_lowByte, UInt32.toNat_shiftRight, Nat.shiftRight_eq_div_pow]
  rfl

theorem toNat_byte3 (w : UInt32) : (byte3 w).toUInt8.toNat = w.toNat % 256 :=
  toNat_lowByte w

/-- The shifted bytes of a word share no bit, so that to join them is to add them. -/
theorem toNat_wordOf (a b c d : UInt8) :
    (wordOf a b c d).toNat =
      a.toNat * 16777216 + b.toNat * 65536 + c.toNat * 256 + d.toNat := by
  have ha := a.toNat_lt
  have hb := b.toNat_lt
  have hc := c.toNat_lt
  have hd := d.toNat_lt
  have ha' : (a.toUInt32 <<< 24).toNat = a.toNat * 16777216 := by
    rw [UInt32.toNat_shiftLeft, UInt8.toNat_toUInt32, Nat.shiftLeft_eq]
    show a.toNat * 16777216 % 4294967296 = _
    omega
  have hb' : (b.toUInt32 <<< 16).toNat = b.toNat * 65536 := by
    rw [UInt32.toNat_shiftLeft, UInt8.toNat_toUInt32, Nat.shiftLeft_eq]
    show b.toNat * 65536 % 4294967296 = _
    omega
  have hc' : (c.toUInt32 <<< 8).toNat = c.toNat * 256 := by
    rw [UInt32.toNat_shiftLeft, UInt8.toNat_toUInt32, Nat.shiftLeft_eq]
    show c.toNat * 256 % 4294967296 = _
    omega
  have hab := Bits.or_eq_add 24 (x := a.toNat * 16777216) (y := b.toNat * 65536)
    (by omega) (by omega)
  have habc := Bits.or_eq_add 16 (x := a.toNat * 16777216 + b.toNat * 65536)
    (y := c.toNat * 256) (by omega) (by omega)
  rw [wordOf, UInt32.toNat_or, UInt32.toNat_or, UInt32.toNat_or, ha', hb', hc',
    UInt8.toNat_toUInt32, hab, habc, Bits.or_eq_add 8 (by omega) (by omega)]

/-- A turn takes the low bits to the top. -/
theorem toNat_rotateRight (w : UInt32) {n : UInt32} {m : Nat} (hn : n.toNat = m) (hpos : 0 < m)
    (hlt : m < 32) :
    (rotateRight w n).toNat = w.toNat % 2 ^ m * 2 ^ (32 - m) + w.toNat / 2 ^ m := by
  have hsplit : 2 ^ m * 2 ^ (32 - m) = 2 ^ 32 := by
    rw [← Nat.pow_add, Nat.add_sub_cancel' (Nat.le_of_lt hlt)]
  have hright : (w >>> n).toNat = w.toNat / 2 ^ m := by
    rw [UInt32.toNat_shiftRight, hn, Nat.mod_eq_of_lt hlt, Nat.shiftRight_eq_div_pow]
  have hback : (32 - n).toNat = 32 - m := by
    rw [UInt32.toNat_sub_of_le _ _ (UInt32.le_iff_toNat_le.mpr (by rw [hn]; exact Nat.le_of_lt hlt)),
      hn]
    rfl
  -- the low bits are shifted to the top, and the others out
  have hleft : (w <<< (32 - n)).toNat = w.toNat % 2 ^ m * 2 ^ (32 - m) := by
    rw [UInt32.toNat_shiftLeft, hback, Nat.mod_eq_of_lt (show 32 - m < 32 by omega),
      Nat.shiftLeft_eq]
    show w.toNat * 2 ^ (32 - m) % 2 ^ 32 = _
    rw [← hsplit, Nat.mul_mod_mul_right]
  -- the high bits fit below them, and the two parts are joined by adding them
  have hsmall : w.toNat / 2 ^ m < 2 ^ (32 - m) := by
    apply Nat.div_lt_of_lt_mul
    rw [hsplit]
    exact w.toNat_lt
  rw [rotateRight, UInt32.toNat_or, hright, hleft, Nat.or_comm,
    Bits.or_eq_add (32 - m) (Nat.mul_mod_left _ _) hsmall]

namespace Column

/-- A word is written by its bytes. -/
theorem wordOf_ofWord (w : UInt32) :
    wordOf (ofWord w).a (ofWord w).b (ofWord w).c (ofWord w).d = w := by
  have hw := w.toNat_lt
  apply UInt32.toNat.inj
  simp only [ofWord, toNat_wordOf, toNat_byte0, toNat_byte1, toNat_byte2, toNat_byte3]
  omega

theorem exists_wordOf (w : UInt32) : ∃ a b c d, w = wordOf a b c d :=
  ⟨_, _, _, _, (wordOf_ofWord w).symm⟩

theorem ofWord_injective : Function.Injective ofWord := by
  intro v w h
  rw [← wordOf_ofWord v, h, wordOf_ofWord w]

theorem ofWord_xor (v w : UInt32) : ofWord (v ^^^ w) = (ofWord v).xor (ofWord w) := by
  have hand : ∀ x : UInt8, x &&& (0xff : UInt32).toUInt8 = x := fun _ => UInt8.and_neg_one
  simp only [ofWord, xor, byte0, byte1, byte2, byte3, UInt32.shiftRight_xor, UInt32.toUInt8_and,
    UInt32.toUInt8_xor, hand]

theorem ofWord_wordOf (a b c d : UInt8) : ofWord (wordOf a b c d) = ⟨a, b, c, d⟩ := by
  have ha := a.toNat_lt
  have hb := b.toNat_lt
  have hc := c.toNat_lt
  have hd := d.toNat_lt
  simp only [ofWord, mk.injEq, ← UInt8.toNat_inj, toNat_byte0, toNat_byte1, toNat_byte2,
    toNat_byte3, toNat_wordOf]
  omega

/-- A word that is turned by whole bytes is the column with its bytes moved down. -/
theorem ofWord_rotateRight (w : UInt32) :
    ofWord (rotateRight w 8) = (ofWord w).down ∧
      ofWord (rotateRight w 16) = (ofWord w).down.down ∧
      ofWord (rotateRight w 24) = (ofWord w).down.down.down := by
  obtain ⟨a, b, c, d, rfl⟩ := exists_wordOf w
  have ha := a.toNat_lt
  have hb := b.toNat_lt
  have hc := c.toNat_lt
  have hd := d.toNat_lt
  have h8 : rotateRight (wordOf a b c d) 8 = wordOf d a b c := by
    apply UInt32.toNat.inj
    rw [toNat_rotateRight _ (show (8 : UInt32).toNat = 8 from rfl) (by decide) (by decide),
      toNat_wordOf, toNat_wordOf]
    omega
  have h16 : rotateRight (wordOf a b c d) 16 = wordOf c d a b := by
    apply UInt32.toNat.inj
    rw [toNat_rotateRight _ (show (16 : UInt32).toNat = 16 from rfl) (by decide) (by decide),
      toNat_wordOf, toNat_wordOf]
    omega
  have h24 : rotateRight (wordOf a b c d) 24 = wordOf b c d a := by
    apply UInt32.toNat.inj
    rw [toNat_rotateRight _ (show (24 : UInt32).toNat = 24 from rfl) (by decide) (by decide),
      toNat_wordOf, toNat_wordOf]
    omega
  rw [h8, h16, h24]
  simp only [ofWord_wordOf, down, and_self]

end Column

/-! ## Substitution -/

/-- The substitute of a byte, as a byte. The box itself has words for its entries, none of which
    exceeds 255. -/
def substituteByte (b : UInt8) : UInt8 := (substitute b.toUInt32).toUInt8

set_option maxRecDepth 4000 in
theorem size_substitution : substitution.size = 256 := by
  decide

/-- The numbers of a list as the bits of one number. Two lists with the same elements have the
    same bits, and this is compared at once where comparing all elements is slow. -/
def bitsOf (ns : List Nat) : Nat := ns.foldr (fun n bits => 1 <<< n ||| bits) 0

theorem testBit_bitsOf (ns : List Nat) (k : Nat) : (bitsOf ns).testBit k = true ↔ k ∈ ns := by
  induction ns with
  | nil => simp [bitsOf]
  | cons n ns ih =>
    have hcons : bitsOf (n :: ns) = 1 <<< n ||| bitsOf ns := rfl
    rw [hcons, Nat.testBit_or, Bool.or_eq_true, ih, Nat.one_shiftLeft, Nat.testBit_two_pow,
      decide_eq_true_iff, List.mem_cons, eq_comm]

set_option maxRecDepth 4000 in
/-- The box rearranges the bytes: it names each of them, and has as many entries. -/
theorem substitution_perm : (substitution.toList.map UInt32.toNat).Perm (List.range 256) := by
  have hbits : bitsOf (substitution.toList.map UInt32.toNat) = bitsOf (List.range 256) := by
    decide
  have hsub : List.range 256 ⊆ substitution.toList.map UInt32.toNat := by
    intro k hk
    rwa [← testBit_bitsOf, hbits, testBit_bitsOf]
  have hlength : (substitution.toList.map UInt32.toNat).length ≤ (List.range 256).length := by
    rw [List.length_map, Array.length_toList, size_substitution, List.length_range]
  -- every byte is in the box, and the box has room for nothing else
  exact ((List.subperm_of_subset List.nodup_range hsub).perm_of_length_le hlength).symm

theorem substitution_getElem? (b : UInt8) :
    (substitution.toList.map UInt32.toNat)[b.toNat]? = some (substitute b.toUInt32).toNat := by
  have hb : b.toNat < substitution.size := size_substitution ▸ b.toNat_lt
  rw [List.getElem?_map, Array.getElem?_toList, substitute, UInt8.toNat_toUInt32,
    Array.getD_eq_getD_getElem?, Array.getElem?_eq_getElem hb]
  rfl

theorem substitute_toUInt32 (b : UInt8) : substitute b.toUInt32 = (substituteByte b).toUInt32 := by
  have hmem := List.mem_of_getElem? (substitution_getElem? b)
  rw [substitution_perm.mem_iff, List.mem_range] at hmem
  apply UInt32.toNat.inj
  rw [substituteByte, UInt8.toNat_toUInt32, UInt32.toNat_toUInt8, Nat.mod_eq_of_lt hmem]

/-- No byte stands twice in the box. -/
theorem substituteByte_injective : Function.Injective substituteByte := by
  intro b c h
  have hnodup : (substitution.toList.map UInt32.toNat).Nodup :=
    substitution_perm.nodup_iff.mpr List.nodup_range
  have hb : b.toNat < (substitution.toList.map UInt32.toNat).length := by
    rw [List.length_map, Array.length_toList, size_substitution]
    exact b.toNat_lt
  apply UInt8.toNat.inj
  apply (List.getElem?_inj hb hnodup).mp
  rw [substitution_getElem?, substitution_getElem?, substitute_toUInt32, substitute_toUInt32, h]

/-! ## Column mix -/

/-- Doubling shifts the bits up and folds the one that falls out back in, as multiplication by
    two in the field of the cipher does. -/
def doubleByte (b : UInt8) : UInt8 := (b <<< 1) ^^^ ((b >>> 7) * 27)

set_option maxRecDepth 4000 in
theorem double_toUInt32 (b : UInt8) : double b.toUInt32 = (doubleByte b).toUInt32 :=
  Bits.forall_byte (P := fun b => double b.toUInt32 = (doubleByte b).toUInt32) (by decide) b

/-- Doubling is linear: the fold at the top is a product with the bit that is shifted out. -/
theorem doubleByte_xor (b c : UInt8) :
    doubleByte (b ^^^ c) = doubleByte b ^^^ doubleByte c := by
  have hbit : ∀ x : UInt8, x >>> 7 = 0 ∨ x >>> 7 = 1 := by
    intro x
    have hx := x.toNat_lt
    have hshift : (x >>> 7).toNat = x.toNat / 128 := Bits.toNat_shiftRight x (by decide)
    rw [← UInt8.toNat_inj, ← UInt8.toNat_inj, hshift]
    show x.toNat / 128 = 0 ∨ x.toNat / 128 = 1
    omega
  -- of the two top bits that meet, either may be set, both or none
  have hfold : (b >>> 7 ^^^ c >>> 7) * (27 : UInt8) =
      ((b >>> 7) * (27 : UInt8)) ^^^ ((c >>> 7) * (27 : UInt8)) := by
    rcases hbit b with hb | hb <;> rcases hbit c with hc | hc <;> rw [hb, hc] <;> rfl
  rw [doubleByte, doubleByte, doubleByte, UInt8.shiftLeft_xor, UInt8.shiftRight_xor, hfold]
  ac_rfl

theorem xor_left_comm (a b c : UInt8) : a ^^^ (b ^^^ c) = b ^^^ (a ^^^ c) := by ac_rfl

theorem xor_cancel_left (a b : UInt8) : a ^^^ (a ^^^ b) = b := by
  rw [← UInt8.xor_assoc, UInt8.xor_self, UInt8.zero_xor]

/-- The mix of a byte `p` with the one below it, `q`, in a column of total `t`. -/
def mixByte (t p q : UInt8) : UInt8 := p ^^^ t ^^^ doubleByte (p ^^^ q)

/-- Mixed twice, a byte meets only the one two rows below. -/
theorem mixByte_mixByte (t p q r : UInt8) :
    mixByte t (mixByte t p q) (mixByte t q r) = p ^^^ doubleByte (doubleByte (p ^^^ r)) := by
  simp only [mixByte, doubleByte_xor, UInt8.xor_assoc, UInt8.xor_comm, xor_left_comm,
    xor_cancel_left]

namespace Column

def total (x : Column) : UInt8 := x.a ^^^ x.b ^^^ x.c ^^^ x.d

/-- The column mix, on the bytes of a column. -/
def mix (x : Column) : Column :=
  ⟨mixByte x.total x.a x.b, mixByte x.total x.b x.c, mixByte x.total x.c x.d,
    mixByte x.total x.d x.a⟩

theorem total_mix (x : Column) : x.mix.total = x.total := by
  simp only [mix, total, mixByte, doubleByte_xor, UInt8.xor_assoc, UInt8.xor_comm, xor_left_comm,
    xor_cancel_left, UInt8.xor_self, UInt8.xor_zero]

theorem mix_mix (x : Column) :
    x.mix.mix =
      ⟨x.a ^^^ doubleByte (doubleByte (x.a ^^^ x.c)), x.b ^^^ doubleByte (doubleByte (x.b ^^^ x.d)),
        x.c ^^^ doubleByte (doubleByte (x.c ^^^ x.a)),
        x.d ^^^ doubleByte (doubleByte (x.d ^^^ x.b))⟩ := by
  rw [mix, total_mix]
  simp only [mix, mixByte_mixByte]

/-- Four mixes give the column back. -/
theorem mix_four (x : Column) : x.mix.mix.mix.mix = x := by
  have hback : ∀ p q r : UInt8, (p ^^^ r) ^^^ (q ^^^ r) = p ^^^ q := by
    intro p q r
    rw [UInt8.xor_comm q r, UInt8.xor_assoc, xor_cancel_left]
  rw [mix_mix, mix_mix, UInt8.xor_comm x.c x.a, UInt8.xor_comm x.d x.b]
  simp only [hback, UInt8.xor_comm x.c x.a, UInt8.xor_comm x.d x.b, UInt8.xor_assoc,
    UInt8.xor_self, UInt8.xor_zero]

theorem mix_injective : Function.Injective mix := by
  intro x y h
  rw [← mix_four x, h, mix_four y]

end Column

theorem ofWord_mixColumn (s : UInt8) :
    Column.ofWord (mixColumn s.toUInt32) = ⟨doubleByte s, s, s, doubleByte s ^^^ s⟩ := by
  have hword : mixColumn s.toUInt32 = wordOf (doubleByte s) s s (doubleByte s ^^^ s) := by
    rw [mixColumn, wordOf, double_toUInt32, UInt8.toUInt32_xor]
  rw [hword, Column.ofWord_wordOf]

theorem mixed_toUInt32 (b : UInt8) : mixed b.toUInt32 = mixColumn (substituteByte b).toUInt32 := by
  have hb : b.toNat < substitution.size := size_substitution ▸ b.toNat_lt
  rw [← substitute_toUInt32, mixed, mixTable, substitute, UInt8.toNat_toUInt32,
    Array.getD_eq_getD_getElem?, Array.getD_eq_getD_getElem?, Array.getElem?_map,
    Array.getElem?_eq_getElem hb]
  rfl

/-! ## Rounds -/

/-- The bytes that the row shift brings together in one column: each row is taken from the next
    column. -/
def diagonal (p q r s : UInt32) : Column :=
  ⟨(byte0 p).toUInt8, (byte1 q).toUInt8, (byte2 r).toUInt8, (byte3 s).toUInt8⟩

theorem toUInt32_byte0 (w : UInt32) : (byte0 w).toUInt8.toUInt32 = byte0 w := by
  have hw := w.toNat_lt
  apply UInt32.toNat.inj
  rw [UInt8.toNat_toUInt32, toNat_byte0, byte0, UInt32.toNat_shiftRight, Nat.shiftRight_eq_div_pow]
  show _ = w.toNat / 16777216
  omega

theorem toUInt32_lowByte (w : UInt32) : (w &&& 0xff).toUInt8.toUInt32 = w &&& 0xff := by
  have hmask : (0xff : UInt32).toNat = 2 ^ 8 - 1 := rfl
  apply UInt32.toNat.inj
  rw [UInt8.toNat_toUInt32, toNat_lowByte, UInt32.toNat_and, hmask, Nat.and_two_pow_sub_one_eq_mod]

/-- The last round makes a column of the substituted bytes on a diagonal. -/
theorem ofWord_shiftedColumn (p q r s : UInt32) :
    Column.ofWord (shiftedColumn p q r s) = (diagonal p q r s).map substituteByte := by
  have hword : shiftedColumn p q r s =
      wordOf (substituteByte (byte0 p).toUInt8) (substituteByte (byte1 q).toUInt8)
        (substituteByte (byte2 r).toUInt8) (substituteByte (byte3 s).toUInt8) := by
    simp only [shiftedColumn, wordOf, ← substitute_toUInt32, toUInt32_byte0, byte1, byte2, byte3,
      toUInt32_lowByte]
  rw [hword, Column.ofWord_wordOf]
  rfl

/-- A middle round mixes the column that is made of them. -/
theorem ofWord_mixedColumn (p q r s : UInt32) :
    Column.ofWord (mixedColumn p q r s) = ((diagonal p q r s).map substituteByte).mix := by
  have hmixed : mixedColumn p q r s =
      mixColumn (substituteByte (byte0 p).toUInt8).toUInt32 ^^^
        rotateRight (mixColumn (substituteByte (byte1 q).toUInt8).toUInt32) 8 ^^^
        rotateRight (mixColumn (substituteByte (byte2 r).toUInt8).toUInt32) 16 ^^^
        rotateRight (mixColumn (substituteByte (byte3 s).toUInt8).toUInt32) 24 := by
    simp only [mixedColumn, ← mixed_toUInt32, toUInt32_byte0, byte1, byte2, byte3,
      toUInt32_lowByte]
  -- a turn takes what the byte of a lower row contributes down to that row
  obtain ⟨h8, -, -⟩ :=
    Column.ofWord_rotateRight (mixColumn (substituteByte (byte1 q).toUInt8).toUInt32)
  obtain ⟨-, h16, -⟩ :=
    Column.ofWord_rotateRight (mixColumn (substituteByte (byte2 r).toUInt8).toUInt32)
  obtain ⟨-, -, h24⟩ :=
    Column.ofWord_rotateRight (mixColumn (substituteByte (byte3 s).toUInt8).toUInt32)
  rw [hmixed, Column.ofWord_xor, Column.ofWord_xor, Column.ofWord_xor, h8, h16, h24]
  simp only [ofWord_mixColumn]
  simp only [Column.xor, Column.down, Column.mix, Column.map, Column.total, diagonal, mixByte,
    doubleByte_xor, UInt8.xor_assoc, UInt8.xor_comm, xor_left_comm, xor_cancel_left]

theorem shiftedColumn_inj {p q r s p' q' r' s' : UInt32}
    (h : shiftedColumn p q r s = shiftedColumn p' q' r' s') :
    diagonal p q r s = diagonal p' q' r' s' := by
  apply Column.map_injective substituteByte_injective
  rw [← ofWord_shiftedColumn, ← ofWord_shiftedColumn, h]

theorem mixedColumn_inj {p q r s p' q' r' s' : UInt32}
    (h : mixedColumn p q r s = mixedColumn p' q' r' s') :
    diagonal p q r s = diagonal p' q' r' s' := by
  apply Column.map_injective substituteByte_injective
  apply Column.mix_injective
  rw [← ofWord_mixedColumn, ← ofWord_mixedColumn, h]

/-- Every byte of the state lies on one of the four diagonals, so these determine it. -/
theorem eq_of_diagonals {x y : Columns}
    (h0 : diagonal x.c0 x.c1 x.c2 x.c3 = diagonal y.c0 y.c1 y.c2 y.c3)
    (h1 : diagonal x.c1 x.c2 x.c3 x.c0 = diagonal y.c1 y.c2 y.c3 y.c0)
    (h2 : diagonal x.c2 x.c3 x.c0 x.c1 = diagonal y.c2 y.c3 y.c0 y.c1)
    (h3 : diagonal x.c3 x.c0 x.c1 x.c2 = diagonal y.c3 y.c0 y.c1 y.c2) : x = y := by
  obtain ⟨x0, x1, x2, x3⟩ := x
  obtain ⟨y0, y1, y2, y3⟩ := y
  simp only [diagonal, Column.mk.injEq] at h0 h1 h2 h3
  -- the rows of a column lie on four diagonals, each one further back than the row above
  have e0 : x0 = y0 := Column.ofWord_injective <| by
    simp only [Column.ofWord, h0.1, h3.2.1, h2.2.2.1, h1.2.2.2]
  have e1 : x1 = y1 := Column.ofWord_injective <| by
    simp only [Column.ofWord, h1.1, h0.2.1, h3.2.2.1, h2.2.2.2]
  have e2 : x2 = y2 := Column.ofWord_injective <| by
    simp only [Column.ofWord, h2.1, h1.2.1, h0.2.2.1, h3.2.2.2]
  have e3 : x3 = y3 := Column.ofWord_injective <| by
    simp only [Column.ofWord, h3.1, h2.2.1, h1.2.2.1, h0.2.2.2]
  rw [e0, e1, e2, e3]

namespace Columns

theorem addKey_injective (k : Columns) : Function.Injective fun s => addKey s k := by
  intro x y h
  simp only [addKey, mk.injEq, UInt32.xor_left_inj] at h
  obtain ⟨h0, h1, h2, h3⟩ := h
  cases x
  cases y
  simp only [mk.injEq]
  exact ⟨h0, h1, h2, h3⟩

theorem toBlock_ofBlock (b : Block) : (ofBlock b).toBlock = b := by
  have hbytes : ∀ a b c d : UInt8,
      (byte0 (wordOf a b c d)).toUInt8 = a ∧ (byte1 (wordOf a b c d)).toUInt8 = b ∧
        (byte2 (wordOf a b c d)).toUInt8 = c ∧ (byte3 (wordOf a b c d)).toUInt8 = d := by
    intro a b c d
    have h := Column.ofWord_wordOf a b c d
    rwa [Column.ofWord, Column.mk.injEq] at h
  simp only [toBlock, ofBlock, hbytes]

theorem ofBlock_toBlock (s : Columns) : ofBlock s.toBlock = s := by
  have h0 := Column.wordOf_ofWord s.c0
  have h1 := Column.wordOf_ofWord s.c1
  have h2 := Column.wordOf_ofWord s.c2
  have h3 := Column.wordOf_ofWord s.c3
  simp only [Column.ofWord] at h0 h1 h2 h3
  simp only [ofBlock, toBlock, h0, h1, h2, h3]

end Columns

/-- Both kinds of round make each column from one diagonal and add a key. If a column determines
    its diagonal, the round determines the state. -/
theorem round_injective {column : UInt32 → UInt32 → UInt32 → UInt32 → UInt32}
    (hcolumn : ∀ {p q r s p' q' r' s' : UInt32}, column p q r s = column p' q' r' s' →
      diagonal p q r s = diagonal p' q' r' s') (k : Columns) :
    Function.Injective fun s : Columns => Columns.addKey
      ⟨column s.c0 s.c1 s.c2 s.c3, column s.c1 s.c2 s.c3 s.c0, column s.c2 s.c3 s.c0 s.c1,
        column s.c3 s.c0 s.c1 s.c2⟩ k := by
  intro x y h
  have hcolumns := Columns.addKey_injective k h
  simp only [Columns.mk.injEq] at hcolumns
  obtain ⟨h0, h1, h2, h3⟩ := hcolumns
  exact eq_of_diagonals (hcolumn h0) (hcolumn h1) (hcolumn h2) (hcolumn h3)

theorem middleRound_injective (k : Columns) : Function.Injective fun s => middleRound s k :=
  round_injective mixedColumn_inj k

theorem lastRound_injective (k : Columns) : Function.Injective fun s => lastRound s k :=
  round_injective shiftedColumn_inj k

/-- Any number of middle rounds, by induction on their keys. -/
theorem middleRounds_injective (keys : List Columns) :
    Function.Injective fun s => keys.foldl middleRound s := by
  induction keys with
  | nil => exact fun _ _ h => h
  | cons k keys ih => exact fun _ _ h => middleRound_injective k (ih h)

/-- The cipher maps no two blocks to one, whatever the key: each of its rounds is undone. -/
theorem Schedule.encrypt_injective (k : Schedule) : Function.Injective k.encrypt := by
  intro x y h
  have hlast := Function.LeftInverse.injective Columns.ofBlock_toBlock h
  have hmiddle := lastRound_injective k.last hlast
  have hfirst := middleRounds_injective k.middle hmiddle
  have hblock := Columns.addKey_injective k.first hfirst
  exact Function.LeftInverse.injective Columns.toBlock_ofBlock hblock

end SoloMiner.Aes
