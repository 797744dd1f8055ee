import SoloMiner.Job.Method
import SoloMiner.Proofs.Text.Numerals

/-! # What packets can say

    A value of a header has no signs and is not empty. So the numbers that a header may hold are
    not negative, its range is in order, and it has a password. A method has a mask key. -/

namespace SoloMiner

/-- A chain of steps that succeeds is made of steps that do. -/
theorem exists_of_bind_eq_ok {ε α β : Type} {x : Except ε α} {f : α → Except ε β} {y : β}
    (h : x >>= f = .ok y) : ∃ a, x = .ok a ∧ f a = .ok y := by
  cases x with
  | error fault => cases h
  | ok a => exact ⟨a, rfl, h⟩

/-- Only the empty text has no bytes. -/
theorem Bytes.ofString_ne_nil {cs : List Char} (h : cs ≠ []) : ofString (String.ofList cs) ≠ [] := by
  intro hnil
  have hsize : (String.ofList cs).utf8ByteSize = 0 := by
    rw [← length_ofString, hnil]
    rfl
  rw [String.utf8ByteSize_eq_zero_iff] at hsize
  exact h (by simpa using congrArg String.toList hsize)

namespace BlockHeader

/-! ## Values -/

/-- The value of a pair that counts. With an empty value, a pair is passed over. -/
structure IsValue (value : List Char) : Prop where
  ne_nil : value ≠ []
  all : ∀ c ∈ value, isValueChar c = true

/-- The value of a pair is not empty and has none but the characters of values. -/
theorem isValue_of_pair? {text key value : List Char} (h : pair? text = some (key, value)) :
    IsValue value := by
  unfold pair? at h
  split at h
  · cases h
  · next key' rest _ =>
    simp only at h
    split at h
    · cases h
    · next hcounts =>
      obtain ⟨rfl, rfl⟩ := Prod.mk.inj (Option.some.inj h)
      simp only [Bool.or_eq_true, not_or] at hcounts
      refine ⟨by simpa using hcounts.2, fun c hc => ?_⟩
      exact List.all_eq_true.mp List.all_takeWhile c hc

theorem isValue_of_mem_pairs {body : List Char} {pair : List Char × List Char}
    (h : pair ∈ pairs body) : IsValue pair.2 := by
  obtain ⟨text, -, hpair⟩ := List.mem_filterMap.mp h
  exact isValue_of_pair? hpair

/-- A part of a value has no minus sign. -/
theorem minus_notMem {value part : List Char} (h : IsValue value) (hpart : part ⊆ value) :
    '-' ∉ part := by
  intro hmem
  have hall := h.all '-' (hpart hmem)
  exact absurd hall (by decide)

/-- Neither side of a cut has a character that the text has not. -/
theorem subset_of_cutFirst {sep : Char} {text before after : List Char}
    (h : Text.cutFirst sep text = some (before, after)) : before ⊆ text ∧ after ⊆ text := by
  induction text generalizing before with
  | nil => cases h
  | cons c cs ih =>
    unfold Text.cutFirst at h
    split at h
    · obtain ⟨rfl, rfl⟩ := Prod.mk.inj (Option.some.inj h)
      exact ⟨List.nil_subset _, List.subset_cons_self c cs⟩
    · obtain ⟨⟨before', after'⟩, hcut, heq⟩ := Option.map_eq_some_iff.mp h
      obtain ⟨rfl, rfl⟩ := Prod.mk.inj heq
      obtain ⟨hbefore, hafter⟩ := ih hcut
      exact ⟨List.cons_subset_cons c hbefore, List.subset_cons_of_subset c hafter⟩

/-! ## Fields -/

theorem nonneg_of_number {field : String} {part : List Char} {n : Int64} (hsign : '-' ∉ part)
    (h : number field part = .ok n) : 0 ≤ n := by
  unfold number at h
  split at h
  · next m hm =>
    obtain rfl := Except.ok.inj h
    exact Decimal.nonneg_of_int64? hsign hm
  · cases h

/-- A range has no negative end, as its numbers have no sign, and its ends are in order. -/
theorem le_of_range {value : List Char} {low high : Int64} (hvalue : IsValue value)
    (h : range value = .ok (low, high)) : 0 ≤ low ∧ low ≤ high := by
  unfold range at h
  split at h
  · cases h
  · next lowText highText hcut =>
    obtain ⟨hlowText, -⟩ := subset_of_cutFirst hcut
    obtain ⟨low', hlow, h⟩ := exists_of_bind_eq_ok h
    obtain ⟨high', -, h⟩ := exists_of_bind_eq_ok h
    split at h
    · cases h
    · next horder =>
      obtain ⟨rfl, rfl⟩ := Prod.mk.inj (Except.ok.inj h)
      exact ⟨nonneg_of_number (minus_notMem hvalue hlowText) hlow, Int64.not_lt.mp horder⟩

/-- The fields read so far say nothing that makes a job useless. What was not read yet is not
    restricted. -/
structure Draft.IsFit (d : Draft) : Prop where
  height : ∀ n, d.height = some n → 0 ≤ n
  timestamp : ∀ n, d.timestamp = some n → 0 ≤ n
  range : ∀ low high, d.range = some (low, high) → 0 ≤ low ∧ low ≤ high
  password : ∀ bs, d.password = some bs → bs ≠ []

theorem Draft.isFit_empty : Draft.IsFit {} := ⟨nofun, nofun, nofun, nofun⟩

/-- A pair that is taken leaves the draft fit. -/
theorem Draft.IsFit.take {d d' : Draft} (h : d.IsFit) {key value : List Char}
    (hvalue : IsValue value) (htake : d.take key value = .ok d') : d'.IsFit := by
  have hsign : '-' ∉ value := minus_notMem hvalue (List.Subset.refl _)
  unfold Draft.take at htake
  -- one case for each key that counts, in the order of the keys, and one for all others
  split at htake
  · obtain ⟨n, hnumber, ⟨⟩⟩ := exists_of_bind_eq_ok htake
    refine ⟨?_, h.timestamp, h.range, h.password⟩
    rintro m ⟨⟩
    exact nonneg_of_number hsign hnumber
  · obtain ⟨n, hnumber, ⟨⟩⟩ := exists_of_bind_eq_ok htake
    refine ⟨h.height, ?_, h.range, h.password⟩
    rintro m ⟨⟩
    exact nonneg_of_number hsign hnumber
  · obtain rfl := Except.ok.inj htake
    exact ⟨h.height, h.timestamp, h.range, h.password⟩
  · obtain rfl := Except.ok.inj htake
    exact ⟨h.height, h.timestamp, h.range, h.password⟩
  · obtain ⟨n, -, ⟨⟩⟩ := exists_of_bind_eq_ok htake
    exact ⟨h.height, h.timestamp, h.range, h.password⟩
  · obtain ⟨⟨low, high⟩, hrange, ⟨⟩⟩ := exists_of_bind_eq_ok htake
    refine ⟨h.height, h.timestamp, ?_, h.password⟩
    rintro low high ⟨⟩
    exact le_of_range hvalue hrange
  · obtain rfl := Except.ok.inj htake
    refine ⟨h.height, h.timestamp, h.range, ?_⟩
    rintro bs ⟨⟩
    exact Bytes.ofString_ne_nil hvalue.ne_nil
  · obtain rfl := Except.ok.inj htake
    exact h

/-- So do any number of pairs, by induction on them. -/
theorem Draft.IsFit.takeAll {d d' : Draft} (h : d.IsFit) {ps : List (List Char × List Char)}
    (hvalues : ∀ pair ∈ ps, IsValue pair.2) (htake : d.takeAll ps = .ok d') : d'.IsFit := by
  induction ps generalizing d with
  | nil =>
    obtain rfl := Except.ok.inj htake
    exact h
  | cons pair rest ih =>
    obtain ⟨key, value⟩ := pair
    unfold Draft.takeAll at htake
    split at htake
    · next d₁ hfirst =>
      exact ih (h.take (hvalues (key, value) List.mem_cons_self) hfirst)
        (fun pair hpair => hvalues pair (List.mem_cons_of_mem _ hpair)) htake
    · cases htake

/-! ## Headers -/

/-- What every header that was read has. That the ends of the range are in order is checked, and
    the rest follows from the characters that a value may have. -/
structure IsFit (h : BlockHeader) : Prop where
  height : 0 ≤ h.height
  timestamp : 0 ≤ h.timestamp
  minRange : 0 ≤ h.minRange
  range : h.minRange ≤ h.maxRange
  password : h.password ≠ []

/-- A fit draft is finished to a fit header. The missing time stamp is zero, and nothing else may
    be missing. -/
theorem Draft.IsFit.finish {d : Draft} (h : d.IsFit) {header : BlockHeader}
    (hfinish : d.finish = .ok header) : header.IsFit := by
  obtain ⟨height, timestamp, method, indication, difficulty, range, password⟩ := d
  -- a header is made only if none of the five fields is missing
  rcases range with _ | ⟨low, high⟩
  · cases hfinish
  rcases height with _ | height
  · cases hfinish
  rcases method with _ | method
  · cases hfinish
  rcases indication with _ | indication
  · cases hfinish
  rcases password with _ | password
  · cases hfinish
  obtain rfl := Except.ok.inj hfinish
  obtain ⟨hlow, hhigh⟩ := h.range low high rfl
  refine ⟨h.height height rfl, ?_, hlow, hhigh, h.password password rfl⟩
  cases timestamp with
  | none => exact Int64.le_refl 0
  | some n => exact h.timestamp n rfl

theorem isFit_of_parse {packet : Bytes} {header : BlockHeader} (h : parse packet = .ok header) :
    header.IsFit := by
  obtain ⟨body, -, h⟩ := exists_of_bind_eq_ok h
  obtain ⟨draft, hdraft, h⟩ := exists_of_bind_eq_ok h
  exact (Draft.isFit_empty.takeAll (fun _ => isValue_of_mem_pairs) hdraft).finish h

end BlockHeader

/-! ## Methods -/

namespace BlockMethod

variable {round size salt key : List Char} {method : BlockMethod}

/-- Two numbers that can be read leave the size and the key to be checked. -/
theorem ofFields_of_numbers {rounds : UInt32} {bits : UInt64}
    (hround : Decimal.uint32? round = some rounds) (hsize : Decimal.uint64? size = some bits) :
    ofFields round size salt key =
      ((AesKeySize.ofBits bits.toNat).mapError TemplateError.crypto >>= fun keySize =>
        if key = [] then BlockHeader.invalid "xor key" key
        else pure ⟨rounds, keySize, Bytes.ofString (String.ofList salt),
          Bytes.ofString (String.ofList key)⟩) := by
  unfold ofFields
  rw [hround, hsize]
  simp only [List.isEmpty_iff]
  rfl

/-- Of four fields that are taken, the first two are numbers. -/
theorem exists_numbers_of_ofFields (h : ofFields round size salt key = .ok method) :
    ∃ rounds bits, Decimal.uint32? round = some rounds ∧ Decimal.uint64? size = some bits := by
  unfold ofFields at h
  cases hround : Decimal.uint32? round with
  | none =>
    rw [hround] at h
    cases h
  | some rounds =>
    cases hsize : Decimal.uint64? size with
    | none =>
      rw [hround, hsize] at h
      cases h
    | some bits => exact ⟨rounds, bits, rfl, rfl⟩

/-- An empty key is not taken. -/
theorem xorKey_of_ofFields (h : ofFields round size salt key = .ok method) :
    method.xorKey ≠ [] := by
  obtain ⟨rounds, bits, hround, hsize⟩ := exists_numbers_of_ofFields h
  rw [ofFields_of_numbers hround hsize] at h
  obtain ⟨keySize, -, h⟩ := exists_of_bind_eq_ok h
  split at h
  · cases h
  · next hne =>
    obtain rfl := Except.ok.inj h
    exact Bytes.ofString_ne_nil hne

theorem xorKey_of_parse {packet : Bytes} (h : parse packet = .ok method) :
    method.xorKey ≠ [] := by
  obtain ⟨body, -, h⟩ := exists_of_bind_eq_ok h
  split at h
  · exact xorKey_of_ofFields h
  · cases h
  · cases h
  · cases h

end BlockMethod
end SoloMiner
