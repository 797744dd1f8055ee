import SoloMiner.Wire.Codec

/-! # One call of the decoder

    What a call does depends on the bytes up to the first end mark. The position that the
    decoder remembers only saves work: the bytes in front of it hold no mark. -/

namespace SoloMiner.PacketCodec

/-! ## The mark -/

theorem idxOf?_mark {body : Bytes} (h : endMark ∉ body) (rest : Bytes) :
    (body ++ endMark :: rest).idxOf? endMark = some body.length := by
  induction body with
  | nil => simp [List.idxOf?_cons]
  | cons b body ih =>
    simp only [List.mem_cons, not_or] at h
    obtain ⟨hb, hbody⟩ := h
    rw [List.cons_append, List.idxOf?_cons, ih hbody, if_neg (by simpa using Ne.symm hb)]
    rfl

theorem markFrom?_of_notMem {buffer : Bytes} (h : endMark ∉ buffer) (position : Nat) :
    markFrom? position buffer = none := by
  have hdrop : endMark ∉ buffer.drop position := fun hmem => h (List.mem_of_mem_drop hmem)
  rw [markFrom?, List.idxOf?_eq_none_iff.mpr hdrop]
  rfl

theorem markFrom?_of_mark {body : Bytes} (h : endMark ∉ body) (rest : Bytes) {position : Nat}
    (hle : position ≤ body.length) :
    markFrom? position (body ++ endMark :: rest) = some body.length := by
  have hdrop : endMark ∉ body.drop position := fun hmem => h (List.mem_of_mem_drop hmem)
  rw [markFrom?, List.drop_append_of_le_length hle, idxOf?_mark hdrop, List.length_drop]
  show some (position + (body.length - position)) = some body.length
  congr 1
  omega

/-- No mark was missed: there is none among the bytes searched. So the next search may begin
    behind them. -/
structure IsSearched (c : PacketCodec) (buffer : Bytes) : Prop where
  searched_le : c.searched ≤ buffer.length
  notMem : endMark ∉ buffer.take c.searched

theorem isSearched_start (cipher : TransportCipher) (buffer : Bytes) :
    (start cipher).IsSearched buffer :=
  ⟨Nat.zero_le _, by simp [start]⟩

/-- Bytes that arrive behind change nothing. -/
theorem IsSearched.append {c : PacketCodec} {buffer : Bytes} (h : c.IsSearched buffer)
    (chunk : Bytes) : c.IsSearched (buffer ++ chunk) := by
  refine ⟨?_, ?_⟩
  · rw [List.length_append]
    exact Nat.le_add_right_of_le h.searched_le
  · rw [List.take_append_of_le_length h.searched_le]
    exact h.notMem

/-- What was searched without success does not go beyond the first mark. -/
theorem IsSearched.searched_le_body {c : PacketCodec} {body rest : Bytes}
    (h : c.IsSearched (body ++ endMark :: rest)) : c.searched ≤ body.length := by
  rcases Nat.lt_or_ge body.length c.searched with hlt | hle
  · -- the mark would be among the bytes searched
    refine (h.notMem ?_).elim
    obtain ⟨n, hn⟩ := Nat.exists_eq_add_of_lt hlt
    rw [List.take_append, List.mem_append, hn,
      show body.length + n + 1 - body.length = n + 1 by omega, List.take_succ_cons]
    exact Or.inr List.mem_cons_self
  · exact hle

/-! ## Calls -/

/-- Without a mark the decoder waits, unless the buffer has room for no frame. -/
theorem decode_of_notMem (c : PacketCodec) {buffer : Bytes} (h : endMark ∉ buffer) :
    c.decode buffer =
      if maxFrameLength ≤ buffer.length then
        (.error (.framing (.noEndMark maxFrameLength)), c, buffer)
      else (.ok none, { c with searched := buffer.length }, buffer) := by
  simp only [decode, markFrom?_of_notMem h]

/-- With a mark the decoder takes the frame, unless it is too long. -/
theorem decode_of_mark {c : PacketCodec} {body rest : Bytes} (hbody : endMark ∉ body)
    (h : c.IsSearched (body ++ endMark :: rest)) :
    c.decode (body ++ endMark :: rest) =
      if maxFrameLength < body.length + 1 then
        (.error (.framing (.tooLarge (body.length + 1))), { c with searched := 0 },
          body ++ endMark :: rest)
      else ((payloadOf c.cipher body).map some, { c with searched := 0 }, rest) := by
  have hdrop : (body ++ endMark :: rest).drop (body.length + 1) = rest := by
    rw [← List.drop_drop, List.drop_left]
    rfl
  -- the search starts behind what was searched, and still finds the first mark
  simp only [decode, markFrom?_of_mark hbody rest h.searched_le_body, List.take_left, hdrop]

end SoloMiner.PacketCodec
