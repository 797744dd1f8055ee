import Mathlib.Algebra.Ring.Nat
import Mathlib.Data.List.Induction
import Mathlib.Data.Nat.Digits.Defs
import Mathlib.Data.String.Basic
import SoloMiner.Text.Bytes
import SoloMiner.Text.Decimal

/-! # Numerals

    How long numerals are, in characters and in bytes, what can be said of a number by the
    characters that it is written with, that every number is read back from its numeral, and
    which numerals are read, those of integers without a sign and those of natural numbers. -/

namespace SoloMiner

namespace Bytes

theorem length_ofString (s : String) : (ofString s).length = s.utf8ByteSize := rfl

/-- Reading back the UTF-8 form of a text gives the text. -/
theorem text?_ofString (s : String) : text? (ofString s) = some s := by
  simp only [text?, ofString, Array.toArray_toList, String.fromUTF8?]
  exact dif_pos s.isValidUTF8

/-- Bytes are read as a text if they are its UTF-8 form. -/
theorem text?_eq_some_iff {bs : Bytes} {s : String} : text? bs = some s ↔ bs = ofString s := by
  constructor
  · intro h
    unfold text? String.fromUTF8? at h
    split at h
    · obtain rfl := Option.some.inj h
      rfl
    · cases h
  · rintro rfl
    exact text?_ofString s

end Bytes

namespace Decimal

/-! ## Lengths -/

/-- A numeral is made of digits. -/
theorem exists_digit_of_mem_ofNat {n : Nat} {c : Char} (h : c ∈ ofNat n) :
    ∃ d < 10, c = digitChar d := by
  fun_induction ofNat n with
  | case1 n hlt => exact ⟨n, hlt, List.mem_singleton.mp h⟩
  | case2 n hge ih =>
    rcases List.mem_append.mp h with h | h
    · exact ih h
    · exact ⟨n % 10, Nat.mod_lt n (by decide), List.mem_singleton.mp h⟩

theorem utf8Size_digitChar {d : Nat} (h : d < 10) : (digitChar d).utf8Size = 1 := by
  have hall : ∀ d < 10, (digitChar d).utf8Size = 1 := by decide
  exact hall d h

theorem utf8Size_of_mem_ofNat (n : Nat) : ∀ c ∈ ofNat n, c.utf8Size = 1 := by
  intro c hc
  obtain ⟨d, hd, rfl⟩ := exists_digit_of_mem_ofNat hc
  exact utf8Size_digitChar hd

/-- A number below the `k`-th power of ten has at most `k` digits. -/
theorem length_ofNat_le {n k : Nat} (hk : 0 < k) (h : n < 10 ^ k) : (ofNat n).length ≤ k := by
  fun_induction ofNat n generalizing k with
  | case1 n hlt => exact hk
  | case2 n hge ih =>
    cases k with
    | zero => cases hk
    | succ k =>
      -- the digits but the last are those of a tenth of the number
      rw [Nat.pow_succ] at h
      have hpos : 0 < k := by
        rcases Nat.eq_zero_or_pos k with rfl | hpos
        · omega
        · exact hpos
      have hrest := ih hpos (by omega)
      rw [List.length_append, List.length_singleton]
      omega

/-- A 64-bit number has at most nineteen digits and a sign. -/
theorem length_ofInt_le (n : Int64) : (ofInt n.toInt).length ≤ 20 := by
  have habs : n.toInt.natAbs < 10 ^ 19 := by
    have hlow := n.le_toInt
    have hhigh := n.toInt_lt
    omega
  have hdigits := length_ofNat_le (by decide) habs
  unfold ofInt
  split
  · rw [List.length_cons]
    omega
  · omega

theorem utf8Size_of_mem_ofInt (n : Int) : ∀ c ∈ ofInt n, c.utf8Size = 1 := by
  intro c hc
  unfold ofInt at hc
  split at hc
  · rcases List.mem_cons.mp hc with rfl | hc
    · rfl
    · exact utf8Size_of_mem_ofNat _ c hc
  · exact utf8Size_of_mem_ofNat _ c hc

theorem utf8Len_of_narrow {cs : List Char} (h : ∀ c ∈ cs, c.utf8Size = 1) :
    String.utf8Len cs = cs.length := by
  induction cs with
  | nil => rfl
  | cons c cs ih =>
    rw [String.utf8Len_cons, h c List.mem_cons_self,
      ih fun c' hc' => h c' (List.mem_cons_of_mem c hc'), List.length_cons]

theorem utf8ByteSize_text_le (n : Int64) : (text n.toInt).utf8ByteSize ≤ 20 := by
  rw [text, String.utf8ByteSize_ofList, utf8Len_of_narrow (utf8Size_of_mem_ofInt _)]
  exact length_ofInt_le n

/-! ## Signs -/

theorem lt_of_digitsBelow? {bound n : Nat} {cs : List Char} (h : digitsBelow? bound cs = some n) :
    n < bound := by
  unfold digitsBelow? at h
  split at h
  · cases h
  · simpa using (Option.filter_eq_some_iff.mp h).2

/-- Without a minus sign a numeral is read as a natural number. -/
theorem exists_nat_of_int64? {cs : List Char} {n : Int64} (hsign : '-' ∉ cs)
    (h : int64? cs = some n) :
    ∃ m : Nat, natBelow? (UInt64.size / 2) cs = some m ∧ Int64.ofInt m = n := by
  unfold int64? at h
  split at h
  · exact absurd List.mem_cons_self hsign
  · simpa [Option.bind_eq_some_iff] using h

theorem nonneg_of_int64? {cs : List Char} {n : Int64} (hsign : '-' ∉ cs)
    (h : int64? cs = some n) : 0 ≤ n := by
  obtain ⟨m, hm, rfl⟩ := exists_nat_of_int64? hsign h
  have hlt : m < UInt64.size / 2 := lt_of_digitsBelow? hm
  have hsize : UInt64.size / 2 = 2 ^ 63 := by decide
  rw [Int64.le_iff_toInt_le, Int64.toInt_ofInt_of_le]
  · exact Int.natCast_nonneg m
  · omega
  · omega

/-! ## Reading back -/

theorem digit?_digitChar {d : Nat} (h : d < 10) : digit? (digitChar d) = some d := by
  have hall : ∀ d < 10, digit? (digitChar d) = some d := by decide
  exact hall d h

theorem isDigit_of_mem_ofNat (n : Nat) : ∀ c ∈ ofNat n, isDigit c := by
  intro c hc
  obtain ⟨d, hd, rfl⟩ := exists_digit_of_mem_ofNat hc
  rw [isDigit, digit?_digitChar hd]
  rfl

theorem ofNat_ne_nil (n : Nat) : ofNat n ≠ [] := by
  fun_induction ofNat n with
  | case1 n hlt => exact List.cons_ne_nil _ _
  | case2 n hge ih => exact List.append_ne_nil_of_right_ne_nil _ (List.cons_ne_nil _ _)

/-- Digits behind others go on from the number that those make. -/
theorem digitsFrom?_append (bound n : Nat) (cs ds : List Char) :
    digitsFrom? bound n (cs ++ ds) =
      (digitsFrom? bound n cs).bind fun m => digitsFrom? bound m ds := by
  induction cs generalizing n with
  | nil => rfl
  | cons c cs ih =>
    rw [List.cons_append, digitsFrom?, digitsFrom?]
    cases digit? c with
    | none => rfl
    | some d => exact ih _

/-- The digits of a number below the bound are read back. -/
theorem digitsFrom?_ofNat {bound n : Nat} (h : n < bound) :
    digitsFrom? bound 0 (ofNat n) = some n := by
  fun_induction ofNat n with
  | case1 n hlt =>
    simp only [digitsFrom?, digit?_digitChar hlt]
    congr 1
    omega
  | case2 n hge ih =>
    -- a bound above the number is above every number that is met on the way
    rw [digitsFrom?_append, ih (by omega), Option.bind_some]
    simp only [digitsFrom?, digit?_digitChar (Nat.mod_lt n (by decide : 0 < 10))]
    congr 1
    omega

theorem digitsBelow?_ofNat {bound n : Nat} (h : n < bound) :
    digitsBelow? bound (ofNat n) = some n := by
  have hne : ¬(ofNat n).isEmpty := by
    rw [List.isEmpty_iff]
    exact ofNat_ne_nil n
  rw [digitsBelow?, if_neg hne, digitsFrom?_ofNat h, Option.filter_some, decide_eq_true h]
  rfl

theorem natBelow?_ofNat {bound n : Nat} (h : n < bound) : natBelow? bound (ofNat n) = some n := by
  unfold natBelow?
  split
  · next ds hplus =>
    have hdigit := isDigit_of_mem_ofNat n '+' (hplus ▸ List.mem_cons_self)
    cases hdigit
  · exact digitsBelow?_ofNat h

/-- Every 64-bit number is read back from its numeral. -/
theorem int64?_ofInt (n : Int64) : int64? (ofInt n.toInt) = some n := by
  have hlow := n.le_toInt
  have hhigh := n.toInt_lt
  have hsize : UInt64.size / 2 = 2 ^ 63 := by decide
  unfold ofInt
  split
  · -- the digits behind the sign are those of the absolute value
    next hneg =>
    have hvalue : -(n.toInt.natAbs : Int) = n.toInt := by omega
    rw [int64?, digitsBelow?_ofNat (by omega)]
    show some (Int64.ofInt (-(n.toInt.natAbs : Int))) = some n
    rw [hvalue, Int64.ofInt_toInt]
  · next hnonneg =>
    have hvalue : (n.toInt.natAbs : Int) = n.toInt := by omega
    unfold int64?
    split
    · -- a numeral without a sign does not begin with one
      next ds hminus =>
      have hdigit := isDigit_of_mem_ofNat _ '-' (hminus ▸ List.mem_cons_self)
      cases hdigit
    · rw [natBelow?_ofNat (by omega)]
      show some (Int64.ofInt (n.toInt.natAbs : Int)) = some n
      rw [hvalue, Int64.ofInt_toInt]

theorem ofInt_toInt_injective : Function.Injective fun n : Int64 => ofInt n.toInt := by
  intro m n (h : ofInt m.toInt = ofInt n.toInt)
  have hread := int64?_ofInt m
  rw [h, int64?_ofInt] at hread
  exact (Option.some.inj hread).symm

theorem blank_not_mem_ofInt (n : Int) : ' ' ∉ ofInt n := by
  intro hmem
  unfold ofInt at hmem
  split at hmem
  · rcases List.mem_cons.mp hmem with hminus | hmem
    · exact absurd hminus (by decide)
    · cases isDigit_of_mem_ofNat _ ' ' hmem
  · cases isDigit_of_mem_ofNat _ ' ' hmem

/-! ## What is read -/

/-- The number that digits write, the greatest place in front. -/
def valueOf (cs : List Char) : Nat := Nat.ofDigits 10 (cs.reverse.map fun c => c.toNat - 48)

theorem valueOf_concat (cs : List Char) (c : Char) :
    valueOf (cs ++ [c]) = 10 * valueOf cs + (c.toNat - 48) := by
  rw [valueOf, List.reverse_append, List.reverse_singleton, List.singleton_append, List.map_cons,
    Nat.ofDigits_cons, Nat.add_comm]
  rfl

theorem digit?_eq_some_iff {c : Char} {d : Nat} :
    digit? c = some d ↔ c.isDigit = true ∧ d = c.toNat - 48 := by
  have hform : c.isDigit = true ↔ 48 ≤ c.toNat ∧ c.toNat ≤ 57 := by
    simp only [Char.isDigit, Bool.and_eq_true, decide_eq_true_eq]
    exact Iff.rfl
  rw [digit?, hform]
  split
  · next h => exact ⟨fun heq => ⟨h, (Option.some.inj heq).symm⟩, fun heq => congrArg some heq.2.symm⟩
  · next h => exact ⟨nofun, fun heq => absurd heq.1 h⟩

/-- Digits are read as their value, or as the bound if that is smaller. By induction from behind,
    as the last digit is the lowest. -/
theorem digitsFrom?_eq_some_iff {bound n : Nat} {cs : List Char} :
    digitsFrom? bound 0 cs = some n ↔
      (∀ c ∈ cs, c.isDigit = true) ∧ n = min bound (valueOf cs) := by
  induction cs using List.reverseRecOn generalizing n with
  | nil =>
    have hmin : min bound (valueOf []) = 0 := Nat.min_zero bound
    rw [hmin]
    exact ⟨fun h => ⟨nofun, (Option.some.inj h).symm⟩, fun h => congrArg some h.2.symm⟩
  | append_singleton cs c ih =>
    rw [digitsFrom?_append, Option.bind_eq_some_iff]
    constructor
    · rintro ⟨m, hcs, hc⟩
      obtain ⟨hdigits, rfl⟩ := ih.mp hcs
      rw [digitsFrom?] at hc
      split at hc
      · next d hd =>
        obtain ⟨hdigit, rfl⟩ := digit?_eq_some_iff.mp hd
        refine ⟨fun c' hc' => ?_, ?_⟩
        · rcases List.mem_append.mp hc' with hc' | hc'
          · exact hdigits c' hc'
          · rwa [List.mem_singleton.mp hc']
        · obtain rfl := Option.some.inj hc
          rw [valueOf_concat]
          omega
      · cases hc
    · rintro ⟨hdigits, rfl⟩
      refine ⟨min bound (valueOf cs), ih.mpr ⟨fun c' hc' => ?_, rfl⟩, ?_⟩
      · exact hdigits c' (List.mem_append_left _ hc')
      · have hd : digit? c = some (c.toNat - 48) :=
          digit?_eq_some_iff.mpr ⟨hdigits c (List.mem_append_right _ List.mem_cons_self), rfl⟩
        rw [digitsFrom?, hd, valueOf_concat]
        simp only [digitsFrom?]
        congr 1
        omega

/-- A row of digits is read if its value is below the bound. -/
theorem digitsBelow?_eq_some_iff {bound n : Nat} {cs : List Char} :
    digitsBelow? bound cs = some n ↔
      cs ≠ [] ∧ (∀ c ∈ cs, c.isDigit = true) ∧ n = valueOf cs ∧ n < bound := by
  unfold digitsBelow?
  by_cases hnil : cs = []
  · simp [hnil]
  · rw [if_neg (by simpa using hnil), Option.filter_eq_some_iff, digitsFrom?_eq_some_iff,
      decide_eq_true_eq, and_assoc]
    constructor
    · rintro ⟨hdigits, hn, hlt⟩
      exact ⟨hnil, hdigits, by omega, hlt⟩
    · rintro ⟨-, hdigits, hn, hlt⟩
      exact ⟨hdigits, by omega, hlt⟩

/-- `cs` is a decimal numeral without a sign, and `n` the number that it writes. -/
structure IsNumeral (cs : List Char) (n : Int64) : Prop where
  ne_nil : cs ≠ []
  digits : ∀ c ∈ cs, c.isDigit = true
  value : n.toInt = valueOf cs

/-- A text without signs is read if it is the numeral of a 64-bit number. -/
theorem int64?_eq_some_iff {cs : List Char} {n : Int64} (hplus : '+' ∉ cs) (hminus : '-' ∉ cs) :
    int64? cs = some n ↔ IsNumeral cs n := by
  have hsize : UInt64.size / 2 = 2 ^ 63 := by decide
  have hread : int64? cs = (digitsBelow? (2 ^ 63) cs).map fun m : Nat => Int64.ofInt m := by
    unfold int64? natBelow?
    split
    · exact absurd List.mem_cons_self hminus
    · split
      · exact absurd List.mem_cons_self hplus
      · rw [hsize]
        cases digitsBelow? (2 ^ 63) cs <;> rfl
  rw [hread, Option.map_eq_some_iff]
  constructor
  · rintro ⟨m, hm, rfl⟩
    obtain ⟨hne, hdigits, rfl, hlt⟩ := digitsBelow?_eq_some_iff.mp hm
    refine ⟨hne, hdigits, Int64.toInt_ofInt_of_le ?_ ?_⟩
    · omega
    · omega
  · rintro ⟨hne, hdigits, hvalue⟩
    have hlt := n.toInt_lt
    refine ⟨valueOf cs, digitsBelow?_eq_some_iff.mpr ⟨hne, hdigits, rfl, by omega⟩, ?_⟩
    rw [← hvalue, Int64.ofInt_toInt]

/-! ## Natural numbers -/

/-- `cs` is a decimal numeral of the natural number `n`, with a plus sign or without. Zeros in
    front are no harm. -/
def IsNatural (cs : List Char) (n : Nat) : Prop :=
  ∃ digits, (cs = digits ∨ cs = '+' :: digits) ∧ digits ≠ [] ∧
    (∀ c ∈ digits, c.isDigit = true) ∧ n = valueOf digits

/-- A natural number is read from its numerals, with a plus sign or without one. -/
theorem natBelow?_eq_some_iff {bound n : Nat} {cs : List Char} :
    natBelow? bound cs = some n ↔ IsNatural cs n ∧ n < bound := by
  have hplus : ¬Char.isDigit '+' = true := by decide
  unfold natBelow? IsNatural
  split
  · -- behind a plus sign there are digits only, since it is none itself
    next ds =>
    rw [digitsBelow?_eq_some_iff]
    constructor
    · rintro ⟨hne, hdigits, hvalue, hlt⟩
      exact ⟨⟨ds, Or.inr rfl, hne, hdigits, hvalue⟩, hlt⟩
    · rintro ⟨⟨digits, hcs | hcs, hne, hdigits, hvalue⟩, hlt⟩
      · exact absurd (hdigits '+' (hcs ▸ List.mem_cons_self)) hplus
      · obtain rfl := (List.cons.inj hcs).2
        exact ⟨hne, hdigits, hvalue, hlt⟩
  · next hsign =>
    rw [digitsBelow?_eq_some_iff]
    constructor
    · rintro ⟨hne, hdigits, hvalue, hlt⟩
      exact ⟨⟨cs, Or.inl rfl, hne, hdigits, hvalue⟩, hlt⟩
    · rintro ⟨⟨digits, hcs | hcs, hne, hdigits, hvalue⟩, hlt⟩
      · rw [hcs]
        exact ⟨hne, hdigits, hvalue, hlt⟩
      · exact absurd hcs (hsign digits)

theorem isNatural_ofNat (n : Nat) : IsNatural (ofNat n) n :=
  (natBelow?_eq_some_iff.mp (natBelow?_ofNat (Nat.lt_succ_self n))).1

/-- A word is read from the numerals of its number. -/
theorem map_natBelow?_eq_some_iff {α : Type} {size : Nat} {word : Nat → α} {number : α → Nat}
    (hlt : ∀ w, number w < size) (hword : ∀ w, word (number w) = w)
    (hnumber : ∀ n < size, number (word n) = n) {cs : List Char} {w : α} :
    (natBelow? size cs).map word = some w ↔ IsNatural cs (number w) := by
  rw [Option.map_eq_some_iff]
  constructor
  · rintro ⟨n, hn, rfl⟩
    obtain ⟨hcs, hsize⟩ := natBelow?_eq_some_iff.mp hn
    rwa [hnumber n hsize]
  · intro h
    exact ⟨number w, natBelow?_eq_some_iff.mpr ⟨h, hlt w⟩, hword w⟩

theorem uint16?_eq_some_iff {cs : List Char} {w : UInt16} :
    uint16? cs = some w ↔ IsNatural cs w.toNat :=
  map_natBelow?_eq_some_iff UInt16.toNat_lt_size (fun _ => UInt16.ofNat_toNat)
    fun _ => UInt16.toNat_ofNat_of_lt

theorem uint32?_eq_some_iff {cs : List Char} {w : UInt32} :
    uint32? cs = some w ↔ IsNatural cs w.toNat :=
  map_natBelow?_eq_some_iff UInt32.toNat_lt_size (fun _ => UInt32.ofNat_toNat)
    fun _ => UInt32.toNat_ofNat_of_lt

theorem uint64?_eq_some_iff {cs : List Char} {w : UInt64} :
    uint64? cs = some w ↔ IsNatural cs w.toNat :=
  map_natBelow?_eq_some_iff UInt64.toNat_lt_size (fun _ => UInt64.ofNat_toNat)
    fun _ => UInt64.toNat_ofNat_of_lt

theorem ofInt_natCast (n : Nat) : ofInt n = ofNat n := by
  rw [ofInt, if_neg (Int.not_lt.mpr (Int.natCast_nonneg n)), Int.natAbs_natCast]

end Decimal
end SoloMiner
