import SoloMiner.Proofs.Wire.Decoding

/-! # Frames of a stream

    Every byte stream is its complete frames, each closed by an end mark, and behind them the
    bytes of a frame that is not complete. Bytes that arrive later leave the complete frames
    as they are. -/

namespace SoloMiner.PacketCodec

/-! ## Cutting a stream -/

/-- The bodies of the complete frames, and the bytes behind the last mark. Every stream can be
    cut in this one way. -/
def cut : Bytes → List Bytes × Bytes
  | [] => ([], [])
  | b :: bs =>
    if b = endMark then ([] :: (cut bs).1, (cut bs).2)
    else
      match cut bs with
      | ([], tail) => ([], b :: tail)
      | (body :: bodies, tail) => ((b :: body) :: bodies, tail)

/-- The bodies of the complete frames of a stream, in order. -/
def bodies (stream : Bytes) : List Bytes := (cut stream).1

/-- Frames with these bodies, one behind the other. -/
def joined (bodies : List Bytes) : Bytes := bodies.flatMap (· ++ [endMark])

theorem joined_cons (body : Bytes) (bodies : List Bytes) (rest : Bytes) :
    joined (body :: bodies) ++ rest = body ++ endMark :: (joined bodies ++ rest) := by
  simp [joined]

theorem joined_concat (bodies : List Bytes) (body rest : Bytes) :
    joined (bodies ++ [body]) ++ rest = joined bodies ++ (body ++ endMark :: rest) := by
  simp [joined]

/-! ## Frame by frame -/

theorem cut_of_notMem {stream : Bytes} (h : endMark ∉ stream) : cut stream = ([], stream) := by
  induction stream with
  | nil => rfl
  | cons b bs ih =>
    simp only [List.mem_cons, not_or] at h
    obtain ⟨hb, hbs⟩ := h
    rw [cut, if_neg (Ne.symm hb), ih hbs]

/-- The first mark is where the stream is cut. -/
theorem cut_of_mark {body : Bytes} (h : endMark ∉ body) (rest : Bytes) :
    cut (body ++ endMark :: rest) = (body :: (cut rest).1, (cut rest).2) := by
  induction body with
  | nil =>
    show cut (endMark :: rest) = _
    rw [cut, if_pos rfl]
  | cons b body ih =>
    simp only [List.mem_cons, not_or] at h
    obtain ⟨hb, hbody⟩ := h
    rw [List.cons_append, cut, if_neg (Ne.symm hb), ih hbody]

theorem cut_joined {bs : List Bytes} (h : ∀ body ∈ bs, endMark ∉ body) (rest : Bytes) :
    cut (joined bs ++ rest) = (bs ++ (cut rest).1, (cut rest).2) := by
  induction bs with
  | nil => rfl
  | cons body bs ih =>
    have hbody := h body List.mem_cons_self
    have hbs := ih fun body' hmem => h body' (List.mem_cons_of_mem _ hmem)
    rw [joined_cons, cut_of_mark hbody, hbs]
    rfl

theorem bodies_joined {bs : List Bytes} (h : ∀ body ∈ bs, endMark ∉ body) (rest : Bytes) :
    bodies (joined bs ++ rest) = bs ++ bodies rest := by
  rw [bodies, cut_joined h]
  rfl

/-- Nothing is lost by cutting, and no mark is left inside a piece. -/
theorem exists_eq_joined (stream : Bytes) :
    ∃ bs tail, stream = joined bs ++ tail ∧ (∀ body ∈ bs, endMark ∉ body) ∧ endMark ∉ tail := by
  -- the measure is the length, for the next frame can begin anywhere
  induction hlength : stream.length using Nat.strongRecOn generalizing stream with
  | ind n ih =>
    by_cases hmark : endMark ∈ stream
    · obtain ⟨body, rest, rfl, hbody⟩ := List.eq_append_cons_of_mem hmark
      have hshorter : rest.length < n := by
        rw [List.length_append, List.length_cons] at hlength
        omega
      obtain ⟨bs, tail, rfl, hbs, htail⟩ := ih rest.length hshorter rest rfl
      refine ⟨body :: bs, tail, (joined_cons body bs tail).symm, ?_, htail⟩
      intro body' hmem
      rcases List.mem_cons.mp hmem with rfl | hmem
      · exact hbody
      · exact hbs body' hmem
    · exact ⟨[], stream, rfl, nofun, hmark⟩

/-- What arrives later changes no complete frame. -/
theorem bodies_prefix_append (stream more : Bytes) : bodies stream <+: bodies (stream ++ more) := by
  obtain ⟨bs, tail, rfl, hbs, htail⟩ := exists_eq_joined stream
  have hnone : bodies tail = [] := by rw [bodies, cut_of_notMem htail]
  rw [bodies_joined hbs, hnone, List.append_nil, List.append_assoc, bodies_joined hbs]
  exact List.prefix_append _ _

/-! ## Frames found by the decoder -/

/-- A payload that comes out is that of the frame in front. -/
theorem exists_frame_of_decode {c c' : PacketCodec} {buffer rest payload : Bytes}
    (hsearched : c.IsSearched buffer) (h : c.decode buffer = (.ok (some payload), c', rest)) :
    ∃ body, endMark ∉ body ∧ buffer = body ++ endMark :: rest ∧
      payloadOf c.cipher body = .ok payload ∧ c' = start c.cipher := by
  by_cases hmark : endMark ∈ buffer
  · obtain ⟨body, behind, rfl, hbody⟩ := List.eq_append_cons_of_mem hmark
    rw [decode_of_mark hbody hsearched] at h
    -- a frame that is too long gives no payload, nor does one with a bad body
    split at h
    · cases h
    · cases hpayload : payloadOf c.cipher body with
      | error e =>
        rw [hpayload] at h
        cases h
      | ok found =>
        rw [hpayload] at h
        cases h
        exact ⟨body, hbody, rfl, hpayload, rfl⟩
  · rw [decode_of_notMem c hmark] at h
    split at h <;> cases h

/-- The same at the end of the stream. -/
theorem exists_frame_of_decodeEnd {c c' : PacketCodec} {buffer rest payload : Bytes}
    (hsearched : c.IsSearched buffer) (h : c.decodeEnd buffer = (.ok (some payload), c', rest)) :
    ∃ body, endMark ∉ body ∧ buffer = body ++ endMark :: rest ∧
      payloadOf c.cipher body = .ok payload ∧ c' = start c.cipher := by
  refine exists_frame_of_decode hsearched ?_
  unfold decodeEnd at h
  split at h
  · split at h <;> cases h
  · exact h

/-- The decoder waits only for a mark: with one in its buffer, a call has an outcome. -/
theorem notMem_of_decode {c c' : PacketCodec} {buffer rest : Bytes}
    (hsearched : c.IsSearched buffer) (h : c.decode buffer = (.ok none, c', rest)) :
    endMark ∉ buffer := by
  -- with a mark a call would have taken the frame or failed, and both are other outcomes
  intro hmark
  obtain ⟨body, behind, rfl, hbody⟩ := List.eq_append_cons_of_mem hmark
  rw [decode_of_mark hbody hsearched] at h
  split at h
  · cases h
  · cases hpayload : payloadOf c.cipher body with
    | error e =>
      rw [hpayload] at h
      cases h
    | ok found =>
      rw [hpayload] at h
      cases h

end SoloMiner.PacketCodec
