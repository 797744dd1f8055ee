import SoloMiner.Proofs.Job.HeaderGrammar

/-! # Fields of methods

    A method packet is read back from the four fields that it is put together from, whatever the
    salt and the key of the mask are, as long as they have no number sign. More may stand behind a
    further number sign. The blanks at the end of a packet are trimmed before it is cut, so a key
    that stands at the end must not end with them.

    No other packets are read: a packet is the lead, a bar and at least four fields, perhaps with
    blanks behind them, the first two fields are numerals, and the method is what the four say. -/

namespace SoloMiner

theorem AesKeySize.ofBits_eq_ok_iff {bits : Nat} {size : AesKeySize} :
    AesKeySize.ofBits bits = .ok size ↔ bits = size.bits := by
  constructor
  · intro h
    unfold ofBits at h
    split_ifs at h with h128 h192 h256
    · obtain rfl := Except.ok.inj h
      exact h128
    · obtain rfl := Except.ok.inj h
      exact h192
    · obtain rfl := Except.ok.inj h
      exact h256
  · rintro rfl
    cases size <;> rfl

theorem AesKeySize.toNat_ofNat_bits (size : AesKeySize) :
    (UInt64.ofNat size.bits).toNat = size.bits := by
  cases size <;> rfl

namespace BlockMethod

variable {packet : Bytes} {method : BlockMethod} {round size salt key : List Char}

/-! ## What four fields say -/

/-- The four fields say what `method` is. The numerals may have a plus sign and zeros in front,
    so a method can be said in many ways. -/
structure Tells (round size salt key : List Char) (method : BlockMethod) : Prop where
  rounds : Decimal.IsNatural round method.rounds.toNat
  keySize : Decimal.IsNatural size method.keySize.bits
  salt_eq : method.salt = Bytes.ofString (String.ofList salt)
  key_ne_nil : key ≠ []
  xorKey_eq : method.xorKey = Bytes.ofString (String.ofList key)

theorem mapError_crypto_eq_ok_iff {bits : Nat} {keySize : AesKeySize} :
    (AesKeySize.ofBits bits).mapError TemplateError.crypto = .ok keySize ↔
      bits = keySize.bits := by
  rw [← AesKeySize.ofBits_eq_ok_iff]
  cases AesKeySize.ofBits bits with
  | error fault => simp [Except.mapError]
  | ok other => simp [Except.mapError]

/-- The four fields are taken if they say what a method is, and the method is the one they say. -/
theorem ofFields_eq_ok_iff :
    ofFields round size salt key = .ok method ↔ Tells round size salt key method := by
  constructor
  · intro h
    obtain ⟨rounds, bits, hround, hsize⟩ := exists_numbers_of_ofFields h
    rw [ofFields_of_numbers hround hsize] at h
    obtain ⟨keySize, hbits, h⟩ := exists_of_bind_eq_ok h
    split at h
    · cases h
    · next hkey =>
      obtain rfl := Except.ok.inj h
      refine ⟨Decimal.uint32?_eq_some_iff.mp hround, ?_, rfl, hkey, rfl⟩
      rw [← mapError_crypto_eq_ok_iff.mp hbits]
      exact Decimal.uint64?_eq_some_iff.mp hsize
  · intro h
    have hround := Decimal.uint32?_eq_some_iff.mpr h.rounds
    -- the numeral is also that of a word, since every size fits one
    have hbits := AesKeySize.toNat_ofNat_bits method.keySize
    have hsize : Decimal.uint64? size = some (UInt64.ofNat method.keySize.bits) := by
      rw [Decimal.uint64?_eq_some_iff, hbits]
      exact h.keySize
    rw [ofFields_of_numbers hround hsize, mapError_crypto_eq_ok_iff.mpr hbits, ← h.salt_eq,
      ← h.xorKey_eq]
    exact if_neg h.key_ne_nil

/-! ## Packets and their fields -/

/-- The packet that holds a text behind the lead and a bar. -/
def packetOf (body : List Char) : Bytes :=
  Bytes.ofString (String.ofList (lead.toList ++ '|' :: body))

/-- The text of the packet is `fs` with number signs between them, and blanks behind it that are
    not counted. -/
structure HasFields (packet : Bytes) (fs : List (List Char)) : Prop where
  ne_nil : fs ≠ []
  free : ∀ f ∈ fs, '#' ∉ f
  eq_packetOf : ∃ blanks, packet = packetOf (['#'].intercalate fs ++ blanks) ∧
    ∀ c ∈ blanks, Text.isBlank c = true
  last : ∀ c ∈ (['#'].intercalate fs).getLast?, Text.isBlank c = false

/-- To have fields is to have a body that is cut into them, behind which there are only blanks. -/
theorem hasFields_iff {fs : List (List Char)} :
    HasFields packet fs ↔
      ∃ body, packet = packetOf body ∧ Text.fields '#' (Text.trimEnd body) = fs := by
  constructor
  · intro h
    obtain ⟨blanks, hpacket, hblanks⟩ := h.eq_packetOf
    -- no blank ends the last field, so trimming takes off the blanks behind it and no more
    have htrim : Text.trimEnd (['#'].intercalate fs ++ blanks) = ['#'].intercalate fs :=
      Text.trimEndWhile_eq_iff.mpr ⟨⟨blanks, rfl, hblanks⟩, h.last⟩
    refine ⟨_, hpacket, ?_⟩
    rw [htrim]
    exact Text.fields_intercalate h.ne_nil h.free
  · rintro ⟨body, rfl, hfields⟩
    obtain ⟨hne, hfree, htrim⟩ := Text.fields_eq_iff.mp hfields
    obtain ⟨⟨blanks, hbody, hblanks⟩, hlast⟩ := Text.trimEndWhile_eq_iff.mp htrim
    exact ⟨hne, hfree, ⟨blanks, congrArg packetOf hbody, hblanks⟩, hlast⟩

/-- A body is cut at the number signs, and the first four fields are read. -/
theorem parse_packetOf (body : List Char) :
    parse (packetOf body) =
      match Text.fields '#' (Text.trimEnd body) with
      | round :: size :: salt :: key :: _ => ofFields round size salt key
      | [_, _, _] => throw (.missingField "xor key")
      | [_, _] => throw (.missingField "salt")
      | _ => throw (.missingField "size") := by
  have hbody : BlockHeader.body? lead (packetOf body) = .ok body :=
    BlockHeader.body?_eq_ok_iff.mpr rfl
  rw [parse, hbody]
  rfl

/-- The packets that are read are those with four fields that say what a method is. -/
theorem parse_eq_ok_iff :
    parse packet = .ok method ↔
      ∃ round size salt key more, HasFields packet (round :: size :: salt :: key :: more) ∧
        Tells round size salt key method := by
  constructor
  · intro h
    obtain ⟨body, hbody, -⟩ := exists_of_bind_eq_ok h
    obtain rfl : packet = packetOf body := BlockHeader.body?_eq_ok_iff.mp hbody
    rw [parse_packetOf] at h
    -- with fewer than four fields one of them is told as missing
    split at h
    · next round size salt key more hfields =>
      exact ⟨round, size, salt, key, more, hasFields_iff.mpr ⟨body, rfl, hfields⟩,
        ofFields_eq_ok_iff.mp h⟩
    · cases h
    · cases h
    · cases h
  · rintro ⟨round, size, salt, key, more, hpacket, htells⟩
    obtain ⟨body, rfl, hfields⟩ := hasFields_iff.mp hpacket
    rw [parse_packetOf, hfields]
    exact ofFields_eq_ok_iff.mpr htells

/-! ## Packets as they are written -/

/-- The text of a packet: the lead, a bar, and four fields with number signs between them. -/
def text (rounds : UInt32) (keySize : AesKeySize) (salt xorKey : String) : String :=
  lead ++ "|" ++ Decimal.text rounds.toNat ++ "#" ++ Decimal.text keySize.bits ++ "#" ++ salt ++
    "#" ++ xorKey

/-- `tail` keeps the blanks at the end of a packet away from the key in front of it: it begins
    with a number sign, or it is empty and the key does not end in a blank. -/
def Closes (tail xorKey : String) : Prop :=
  tail.toList.head? = some '#' ∨
    (tail = "" ∧ ∀ c ∈ xorKey.toList.getLast?, Text.isBlank c = false)

/-- The three fields in front of the key, with a number sign behind each. -/
def front (rounds : UInt32) (keySize : AesKeySize) (salt : String) : List Char :=
  Decimal.ofNat rounds.toNat ++ '#' :: (Decimal.ofNat keySize.bits ++ '#' :: (salt.toList ++ ['#']))

theorem ofString_text_append (rounds : UInt32) (keySize : AesKeySize)
    (salt xorKey tail : String) :
    Bytes.ofString (text rounds keySize salt xorKey ++ tail) =
      packetOf (front rounds keySize salt ++ (xorKey.toList ++ tail.toList)) := by
  unfold packetOf
  congr 1
  apply String.toList_inj.mp
  simp [text, front, Decimal.text, Decimal.ofInt_natCast]

theorem notMem_ofNat (n : Nat) : '#' ∉ Decimal.ofNat n := by
  intro hmem
  have hdigit := Decimal.isDigit_of_mem_ofNat n '#' hmem
  exact absurd hdigit (by decide)

theorem fields_front {salt : String} (hsalt : '#' ∉ salt.toList) (rounds : UInt32)
    (keySize : AesKeySize) (rest : List Char) :
    Text.fields '#' (front rounds keySize salt ++ rest) =
      Decimal.ofNat rounds.toNat :: Decimal.ofNat keySize.bits :: salt.toList ::
        Text.fields '#' rest := by
  unfold front
  simp only [List.append_assoc, List.cons_append, List.nil_append]
  rw [Text.fields_append_cons (notMem_ofNat _), Text.fields_append_cons (notMem_ofNat _),
    Text.fields_append_cons hsalt]

/-- Of the key and the tail the key is left, alone or with a number sign behind it. -/
theorem exists_trimEnd_key {xorKey tail : String} (h : Closes tail xorKey) :
    ∃ left, Text.trimEnd (xorKey.toList ++ tail.toList) = xorKey.toList ++ left ∧
      (left = [] ∨ left.head? = some '#') := by
  rcases h with hsign | ⟨rfl, hlast⟩
  · -- a number sign is not a blank, so the trimming stops at the first one of the tail
    obtain ⟨rest, hrest⟩ := List.head?_eq_some_iff.mp hsign
    obtain ⟨left, hleft⟩ := Text.exists_trimEnd_cons (c := '#') rfl rest
    refine ⟨'#' :: left, ?_, Or.inr rfl⟩
    rw [hrest, Text.trimEnd_append _ (by simp [hleft]), hleft]
  · refine ⟨[], ?_, Or.inl rfl⟩
    rw [String.toList_empty, List.append_nil, Text.trimEnd_eq_self hlast]

theorem exists_fields_key {left : List Char} (hfree : '#' ∉ key)
    (hleft : left = [] ∨ left.head? = some '#') :
    ∃ more, Text.fields '#' (key ++ left) = key :: more := by
  rcases hleft with rfl | hsign
  · rw [List.append_nil]
    exact ⟨[], Text.fields_of_notMem hfree⟩
  · obtain ⟨rest, rfl⟩ := List.head?_eq_some_iff.mp hsign
    exact ⟨Text.fields '#' rest, Text.fields_append_cons hfree rest⟩

/-- A method is read back from its packet, with anything behind the key that closes it. -/
theorem parse_text {rounds : UInt32} {keySize : AesKeySize} {salt xorKey tail : String}
    (hsalt : '#' ∉ salt.toList) (hfree : '#' ∉ xorKey.toList) (hkey : xorKey ≠ "")
    (htail : Closes tail xorKey) :
    parse (Bytes.ofString (text rounds keySize salt xorKey ++ tail)) =
      .ok ⟨rounds, keySize, Bytes.ofString salt, Bytes.ofString xorKey⟩ := by
  have hkey' : xorKey.toList ≠ [] := by simpa using hkey
  obtain ⟨left, htrim, hleft⟩ := exists_trimEnd_key htail
  obtain ⟨more, hmore⟩ := exists_fields_key hfree hleft
  -- the key is left, so the trimming does not come to the fields in front of it
  have hne : Text.trimEnd (xorKey.toList ++ tail.toList) ≠ [] := by simp [htrim, hkey']
  rw [ofString_text_append, parse_packetOf, Text.trimEnd_append _ hne, htrim,
    fields_front hsalt, hmore]
  apply ofFields_eq_ok_iff.mpr
  exact {
    rounds := Decimal.isNatural_ofNat _
    keySize := Decimal.isNatural_ofNat _
    salt_eq := by rw [String.ofList_toList]
    key_ne_nil := hkey'
    xorKey_eq := by rw [String.ofList_toList] }

/-! ## Both ways -/

/-- A method is read back from the packet that it is written in, and every packet that is read has
    four fields that say what the method is. -/
theorem parse_tells_fields :
    (∀ (rounds : UInt32) (keySize : AesKeySize) (salt xorKey tail : String),
      '#' ∉ salt.toList → '#' ∉ xorKey.toList → xorKey ≠ "" → Closes tail xorKey →
      parse (Bytes.ofString (text rounds keySize salt xorKey ++ tail)) =
        .ok ⟨rounds, keySize, Bytes.ofString salt, Bytes.ofString xorKey⟩) ∧
    ∀ packet method, parse packet = .ok method ↔
      ∃ round size salt key more, HasFields packet (round :: size :: salt :: key :: more) ∧
        Tells round size salt key method := by
  refine ⟨?_, fun _ _ => parse_eq_ok_iff⟩
  intro rounds keySize salt xorKey tail hsalt hfree hkey htail
  exact parse_text hsalt hfree hkey htail

/-- A salt that looks like fields of another kind, and a key between blanks. -/
theorem parse_tells_fields_blank :
    '#' ∉ "7&ID=1|".toList ∧ '#' ∉ " k ".toList ∧ " k " ≠ "" ∧ Closes "# more \n" " k " ∧
      parse (Bytes.ofString "SEND-CONTENT-BLOCK-METHOD|3#192#7&ID=1|# k # more \n") =
        .ok ⟨3, .bits192, Bytes.ofString "7&ID=1|", [32, 107, 32]⟩ := by
  have hsalt : '#' ∉ "7&ID=1|".toList := by decide
  have hfree : '#' ∉ " k ".toList := by decide
  have hkey : " k " ≠ "" := by decide
  have htail : Closes "# more \n" " k " := Or.inl rfl
  have hparse := parse_tells_fields.1 3 .bits192 "7&ID=1|" " k " "# more \n" hsalt hfree hkey htail
  have htext : text 3 .bits192 "7&ID=1|" " k " ++ "# more \n" =
      "SEND-CONTENT-BLOCK-METHOD|3#192#7&ID=1|# k # more \n" := by
    have hround : Decimal.text (3 : UInt32).toNat = "3" := by
      rw [Decimal.text, Decimal.ofInt_natCast, Decimal.ofNat]
      rfl
    have hsize : Decimal.text AesKeySize.bits192.bits = "192" := by
      rw [Decimal.text, Decimal.ofInt_natCast, Decimal.ofNat, Decimal.ofNat, Decimal.ofNat]
      rfl
    rw [text, hround, hsize]
    rfl
  rw [htext] at hparse
  exact ⟨hsalt, hfree, hkey, htail, hparse⟩

end BlockMethod
end SoloMiner
