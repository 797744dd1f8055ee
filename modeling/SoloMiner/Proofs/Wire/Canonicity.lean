import SoloMiner.Proofs.Cipher.TransportRoundTrip
import SoloMiner.Proofs.Encoding.Canonicity
import SoloMiner.Wire.Codec

/-! # Canonicity of frames

    A frame that the decoder takes is the frame of its payload, except for the padding: the
    decoder takes any padding of one to sixteen bytes, the encoder pads to whole blocks. So
    the frame is written again byte for byte just when its ciphertext has whole blocks, and no
    two such frames carry one payload. -/

namespace SoloMiner

/-! ## Padding -/

namespace Padding

/-- What is taken off is one to sixteen bytes that all hold their number. -/
theorem exists_marks_of_unpad {bs payload : Bytes} (h : unpad bs = .ok payload) :
    ∃ n, 0 < n ∧ n ≤ 16 ∧ bs = payload ++ List.replicate n (UInt8.ofNat n) := by
  unfold unpad unpaddedLength at h
  cases hlast : bs.getLast? with
  | none =>
    rw [hlast] at h
    cases h
  | some mark =>
    simp only [hlast] at h
    -- the last byte must be a possible number of marks, and then each of so many bytes must be a
    -- mark
    by_cases hbad : mark.toNat = 0 ∨ Block.size < mark.toNat ∨ bs.length < mark.toNat
    · rw [if_pos hbad] at h
      cases h
    · rw [if_neg hbad] at h
      by_cases hmarks : (bs.drop (bs.length - mark.toNat)).all (· == mark) = true
      · rw [if_pos hmarks] at h
        obtain rfl : bs.take (bs.length - mark.toNat) = payload := Except.ok.inj h
        simp only [Block.size] at hbad
        refine ⟨mark.toNat, by omega, by omega, ?_⟩
        -- the bytes behind the payload are as many copies of the mark as it says
        have hreplicate : bs.drop (bs.length - mark.toNat) =
            List.replicate mark.toNat (UInt8.ofNat mark.toNat) := by
          rw [UInt8.ofNat_toNat]
          apply List.eq_replicate_iff.mpr
          refine ⟨by rw [List.length_drop]; omega, ?_⟩
          intro b hb
          exact eq_of_beq (List.all_eq_true.mp hmarks b hb)
        rw [← hreplicate, List.take_append_drop]
      · rw [if_neg hmarks] at h
        cases h

/-- Padding is put back as it was if it went up to the end of a block. The reader also takes
    shorter padding, which the writer never makes. -/
theorem pad_eq_iff {bs payload : Bytes} (h : unpad bs = .ok payload) :
    pad payload = bs ↔ 16 ∣ bs.length := by
  obtain ⟨n, hpos, hle, rfl⟩ := exists_marks_of_unpad h
  constructor
  · intro hpad
    rw [← hpad, length_pad]
    exact Nat.dvd_mul_right _ _
  · intro haligned
    -- up to the end of a block there is one number of marks from one to sixteen
    have hlength : lengthFor payload.length = n := by
      rw [List.length_append, List.length_replicate] at haligned
      simp only [lengthFor, Block.size]
      omega
    rw [pad, hlength]

end Padding

/-! ## Packets -/

/-- What was decrypted is encrypted to the same ciphertext if that has whole blocks. -/
theorem TransportCipher.encrypt_eq_iff {t : TransportCipher} {cs payload : Bytes}
    (h : t.decrypt cs = .ok payload) : t.encrypt payload = cs ↔ 16 ∣ cs.length := by
  have hlength : (Feedback.decrypt t.encryptBlock t.iv cs).length = cs.length := by
    rw [← Feedback.length_encrypt t.encryptBlock t.iv, Feedback.encrypt_decrypt]
  -- the cipher itself loses nothing, so all depends on the padding
  rw [← hlength, ← Padding.pad_eq_iff h, encrypt]
  constructor
  · intro heq
    rw [← heq, Feedback.decrypt_encrypt]
  · intro heq
    rw [heq, Feedback.encrypt_decrypt]

/-! ## Frames -/

namespace PacketCodec

/-- A call on `buffer` takes `frame` off its front and gives `payload`. -/
def Takes (c : PacketCodec) (buffer frame payload : Bytes) : Prop :=
  ∃ codec rest, c.decode buffer = (.ok (some payload), codec, rest) ∧ buffer = frame ++ rest

/-- Behind the end mark nothing, and in front of it the text of a ciphertext. -/
def Carries (frame ciphertext : Bytes) : Prop :=
  ∃ body, frame = body ++ [endMark] ∧ Base64.decode? body = some ciphertext

/-- Wherever the search for a mark begins, the mark that it finds stands there. -/
theorem eq_of_markFrom? {position mark : Nat} {buffer : Bytes}
    (h : markFrom? position buffer = some mark) :
    buffer = buffer.take mark ++ endMark :: buffer.drop (mark + 1) := by
  unfold markFrom? at h
  obtain ⟨i, hi, rfl⟩ := Option.map_eq_some_iff.mp h
  obtain ⟨hlt, hbyte, -⟩ := List.findIdx?_eq_some_iff_getElem.mp hi
  rw [List.length_drop] at hlt
  have hmark : buffer[position + i] = endMark := by
    rw [← eq_of_beq hbyte, List.getElem_drop]
  rw [← hmark, ← List.drop_eq_getElem_cons, List.take_append_drop]

/-- What is taken ends with the mark, whatever the decoder remembers of its search. -/
theorem Takes.exists_body {c : PacketCodec} {buffer frame payload : Bytes}
    (h : c.Takes buffer frame payload) :
    ∃ body, frame = body ++ [endMark] ∧ payloadOf c.cipher body = .ok payload := by
  obtain ⟨codec, rest, hdecode, hbuffer⟩ := h
  unfold decode at hdecode
  -- only a mark within the bound makes the decoder take anything
  cases hmark : markFrom? c.searched buffer with
  | none =>
    simp only [hmark] at hdecode
    split at hdecode <;> cases hdecode
  | some mark =>
    simp only [hmark] at hdecode
    split at hdecode
    · cases hdecode
    · obtain ⟨houtcome, hrest⟩ := Prod.mk.inj hdecode
      obtain ⟨-, rfl⟩ := Prod.mk.inj hrest
      refine ⟨buffer.take mark, ?_, ?_⟩
      · -- the frame is what is in front of the rest
        have hframe := hbuffer.symm.trans (eq_of_markFrom? hmark)
        rw [List.append_cons] at hframe
        exact List.append_cancel_right hframe
      · -- and a payload only comes of a body that is good
        cases hpayload : payloadOf c.cipher (buffer.take mark) with
        | error fault =>
          rw [hpayload] at houtcome
          cases houtcome
        | ok found =>
          rw [hpayload] at houtcome
          obtain rfl : found = payload := Option.some.inj (Except.ok.inj houtcome)
          rfl

/-- A body with a payload is Base64 text of a ciphertext that can be decrypted. -/
theorem exists_ciphertext_of_payloadOf {cipher : TransportCipher} {body payload : Bytes}
    (h : payloadOf cipher body = .ok payload) :
    ∃ cs, Base64.decode? body = some cs ∧ cipher.decrypt cs = .ok payload := by
  unfold payloadOf at h
  cases hbody : Base64.decode? body with
  | none =>
    rw [hbody] at h
    cases h
  | some cs =>
    rw [hbody] at h
    cases hpayload : cipher.decrypt cs with
    | error fault =>
      simp only [hpayload] at h
      cases h
    | ok found =>
      simp only [hpayload] at h
      exact ⟨cs, rfl, hpayload.trans (by rw [Except.ok.inj h])⟩

/-- A frame that was taken is written again just when its ciphertext has whole blocks. -/
theorem Takes.frameOf_eq_iff {c : PacketCodec} {buffer frame payload cs : Bytes}
    (h : c.Takes buffer frame payload) (hcarries : Carries frame cs) :
    frameOf c.cipher payload = frame ↔ 16 ∣ cs.length := by
  obtain ⟨body, rfl, hpayload⟩ := h.exists_body
  obtain ⟨body', hbody, hcs⟩ := hcarries
  obtain rfl : body = body' := List.append_cancel_right hbody
  obtain ⟨cs', hcs', hdecrypt⟩ := exists_ciphertext_of_payloadOf hpayload
  obtain rfl : cs' = cs := Option.some.inj (hcs'.symm.trans hcs)
  rw [← TransportCipher.encrypt_eq_iff hdecrypt, frameOf, List.append_cancel_right_eq]
  -- Base64 is strict, so the text is the same just where the ciphertext is
  constructor
  · intro hencode
    rw [← hencode, Base64.decode?_encode] at hcs
    exact Option.some.inj hcs
  · intro hencrypt
    rw [hencrypt, Base64.encode_of_decode? hcs]

/-- A frame that the decoder takes carries a ciphertext, and its payload is encoded to the same
    frame if and only if that ciphertext has whole blocks. So two frames of whole blocks that
    give one payload under one cipher are one frame. -/
theorem encode_eq_frame_iff (c : PacketCodec) :
    (∀ buffer frame payload, c.Takes buffer frame payload →
      (∃ cs, Carries frame cs) ∧
      ∀ cs, Carries frame cs → (c.encode (.encrypted payload) = frame ↔ 16 ∣ cs.length)) ∧
    (∀ (c' : PacketCodec) (buffer buffer' frame frame' payload cs cs' : Bytes),
      c'.cipher = c.cipher →
      c.Takes buffer frame payload → c'.Takes buffer' frame' payload →
      Carries frame cs → Carries frame' cs' →
      16 ∣ cs.length → 16 ∣ cs'.length → frame = frame') := by
  constructor
  · intro buffer frame payload h
    obtain ⟨body, hframe, hpayload⟩ := h.exists_body
    obtain ⟨cs, hcs, -⟩ := exists_ciphertext_of_payloadOf hpayload
    exact ⟨⟨cs, body, hframe, hcs⟩, fun cs' hcs' => h.frameOf_eq_iff hcs'⟩
  · intro c' buffer buffer' frame frame' payload cs cs' hcipher h h' hcs hcs' haligned haligned'
    -- both frames are what the one payload is encoded to
    have hframe := (h.frameOf_eq_iff hcs).mpr haligned
    have hframe' := (h'.frameOf_eq_iff hcs').mpr haligned'
    rw [← hframe, ← hframe', hcipher]

/-- The frame of a payload is written again. One whose ciphertext is a single byte, which is all
    padding, gives the empty payload and is not. -/
theorem encode_eq_frame_iff_small :
    ((start ⟨id, .zero⟩).Takes (frameOf ⟨id, .zero⟩ [1, 2] ++ [65])
        (frameOf ⟨id, .zero⟩ [1, 2]) [1, 2] ∧
      Carries (frameOf ⟨id, .zero⟩ [1, 2]) (TransportCipher.encrypt ⟨id, .zero⟩ [1, 2]) ∧
      (start ⟨id, .zero⟩).encode (.encrypted [1, 2]) = frameOf ⟨id, .zero⟩ [1, 2]) ∧
    (start ⟨id, .zero⟩).Takes [65, 81, 61, 61, 42] [65, 81, 61, 61, 42] [] ∧
      Carries [65, 81, 61, 61, 42] [1] ∧
      (start ⟨id, .zero⟩).encode (.encrypted []) ≠ [65, 81, 61, 61, 42] := by
  obtain ⟨hagain, -⟩ := encode_eq_frame_iff (start ⟨id, .zero⟩)
  have htakes : (start ⟨id, .zero⟩).Takes (frameOf ⟨id, .zero⟩ [1, 2] ++ [65])
      (frameOf ⟨id, .zero⟩ [1, 2]) [1, 2] := ⟨_, [65], rfl, rfl⟩
  have hcarries : Carries (frameOf ⟨id, .zero⟩ [1, 2])
      (TransportCipher.encrypt ⟨id, .zero⟩ [1, 2]) := ⟨_, rfl, Base64.decode?_encode _⟩
  have htakes' : (start ⟨id, .zero⟩).Takes [65, 81, 61, 61, 42] [65, 81, 61, 61, 42] [] :=
    ⟨_, [], rfl, rfl⟩
  have hcarries' : Carries [65, 81, 61, 61, 42] [1] := ⟨[65, 81, 61, 61], rfl, rfl⟩
  refine ⟨⟨htakes, hcarries, ?_⟩, htakes', hcarries', ?_⟩
  · exact ((hagain _ _ _ htakes).2 _ hcarries).mpr (by decide)
  · intro heq
    exact absurd (((hagain _ _ _ htakes').2 _ hcarries').mp heq) (by decide)

end PacketCodec
end SoloMiner
