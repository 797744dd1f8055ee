import SoloMiner.Proofs.Wire.Frames

/-! # Streams in pieces

    A stream arrives in pieces. After each piece the decoder is called until it waits for more,
    and at the end of the stream once more for what is left; the first fault ends the reading.
    What comes out depends on the stream alone.

    The measure of all readings is `reading`, which looks at the whole stream, frame by frame.
    Between two pieces the bytes not consumed hold no mark and are fewer than a frame may have;
    so the reading of what is still to come, with those bytes in front, is all that is missing. -/

namespace SoloMiner

/-- The fault, where all faults of frames count as the same. -/
def NetworkError.coarse : NetworkError → NetworkError
  | .framing _ => .framing (.described "")
  | e => e

/-- What is made of a stream: payloads, and then perhaps a fault. After a fault nothing more is
    read. -/
structure Reading where
  payloads : List Bytes
  /-- What ended the reading before the stream ended. -/
  fault : Option NetworkError
  deriving DecidableEq, Repr

namespace Reading

def stopped (e : NetworkError) : Reading := ⟨[], some e⟩

/-- The reading with payloads in front. -/
def behind (payloads : List Bytes) (r : Reading) : Reading := ⟨payloads ++ r.payloads, r.fault⟩

/-- The reading, where all faults of frames count as the same. -/
def coarse (r : Reading) : Reading := { r with fault := r.fault.map NetworkError.coarse }

theorem behind_behind (ps qs : List Bytes) (r : Reading) :
    (r.behind qs).behind ps = r.behind (ps ++ qs) := by
  simp [behind]

theorem coarse_behind (ps : List Bytes) (r : Reading) : (r.behind ps).coarse = r.coarse.behind ps :=
  rfl

theorem coarse_stopped_framing (fault : FramingFault) :
    (stopped (.framing fault)).coarse = stopped (.framing (.described "")) :=
  rfl

/-- Nothing is forgotten of a fault of the cipher. -/
theorem fault_of_coarse {r : Reading} {cause : CryptoError}
    (h : r.coarse.fault = some (.crypto cause)) : r.fault = some (.crypto cause) := by
  obtain ⟨e, he, hcause⟩ := Option.map_eq_some_iff.mp h
  rw [he]
  cases e with
  | crypto cause' => exact congrArg some hcause
  | framing fault => cases hcause
  | connect | connectTimeout | io | timeout | connectionClosed | loginRejected => cases hcause
  | invalidUrl url => cases hcause

end Reading

namespace PacketCodec

/-! ## Reading pieces -/

/-- A call that gives a payload consumes at least its mark. -/
theorem length_rest_lt {c c' : PacketCodec} {buffer rest payload : Bytes}
    (h : c.decode buffer = (.ok (some payload), c', rest)) : rest.length < buffer.length := by
  unfold decode at h
  split at h
  · split at h <;> cases h
  · rename_i mark hmark
    split at h
    · cases h
    · -- the mark is one of the bytes of the buffer
      obtain ⟨i, hi, rfl⟩ := Option.map_eq_some_iff.mp hmark
      have hlt := (List.findIdx?_eq_some_iff_getElem.mp hi).1
      rw [List.length_drop] at hlt
      simp only [Prod.mk.injEq] at h
      rw [← h.2.2, List.length_drop]
      omega

/-- Calls the decoder until it waits for more or fails. Each payload takes a frame off the
    buffer, so this comes to an end. -/
def takeAll (c : PacketCodec) (buffer : Bytes) : Reading × PacketCodec × Bytes :=
  match _ : c.decode buffer with
  | (.ok none, c, rest) => (⟨[], none⟩, c, rest)
  | (.error e, c, rest) => (.stopped e, c, rest)
  | (.ok (some payload), c, rest) =>
    let (r, left) := takeAll c rest
    (r.behind [payload], left)
termination_by buffer.length
decreasing_by exact length_rest_lt ‹_›

/-- Reads the pieces that are still to come, where `buffer` was not consumed yet. -/
def readFrom (c : PacketCodec) (buffer : Bytes) : List Bytes → Reading
  | [] =>
    match (c.decodeEnd buffer).1 with
    | .ok payload? => ⟨payload?.toList, none⟩
    | .error e => .stopped e
  | piece :: pieces =>
    match c.takeAll (buffer ++ piece) with
    | (⟨payloads, some e⟩, _, _) => ⟨payloads, some e⟩
    | (⟨payloads, none⟩, c, rest) => (c.readFrom rest pieces).behind payloads

/-- Reads a stream in pieces. -/
def read (cipher : TransportCipher) (pieces : List Bytes) : Reading :=
  (start cipher).readFrom [] pieces

/-! ## Calls on a buffer -/

/-- One call, and then the calls on what it leaves. This is the defining equation without the
    proof of termination that it carries. -/
theorem takeAll_eq (c : PacketCodec) (buffer : Bytes) :
    c.takeAll buffer =
      match c.decode buffer with
      | (.ok none, c, rest) => (⟨[], none⟩, c, rest)
      | (.error e, c, rest) => (.stopped e, c, rest)
      | (.ok (some payload), c, rest) =>
        let (r, left) := c.takeAll rest
        (r.behind [payload], left) := by
  rw [takeAll]
  split
  · rename_i hdecode
    rw [hdecode]
  · rename_i hdecode
    rw [hdecode]
  · rename_i hdecode
    rw [hdecode]

theorem takeAll_of_notMem (c : PacketCodec) {buffer : Bytes} (h : endMark ∉ buffer) :
    c.takeAll buffer =
      if maxFrameLength ≤ buffer.length then
        (.stopped (.framing (.noEndMark maxFrameLength)), c, buffer)
      else (⟨[], none⟩, { c with searched := buffer.length }, buffer) := by
  rw [takeAll_eq, c.decode_of_notMem h]
  by_cases hlong : maxFrameLength ≤ buffer.length
  · rw [if_pos hlong, if_pos hlong]
  · rw [if_neg hlong, if_neg hlong]

/-- The frame in front is refused, fails, or gives a payload. -/
theorem takeAll_of_mark {c : PacketCodec} {body rest : Bytes} (hbody : endMark ∉ body)
    (h : c.IsSearched (body ++ endMark :: rest)) :
    c.takeAll (body ++ endMark :: rest) =
      if maxFrameLength < body.length + 1 then
        (.stopped (.framing (.tooLarge (body.length + 1))), start c.cipher,
          body ++ endMark :: rest)
      else
        match payloadOf c.cipher body with
        | .error e => (.stopped e, start c.cipher, rest)
        | .ok payload =>
          let (r, left) := (start c.cipher).takeAll rest
          (r.behind [payload], left) := by
  rw [takeAll_eq, decode_of_mark hbody h]
  -- too long, it stays where it is; otherwise it is consumed, whatever its body is
  by_cases hlong : maxFrameLength < body.length + 1
  · rw [if_pos hlong, if_pos hlong]
    rfl
  · rw [if_neg hlong, if_neg hlong]
    cases payloadOf c.cipher body with
    | error e => rfl
    | ok payload => rfl

/-! ## The reading of a whole stream -/

/-- The reading of frames with these bodies, and of the bytes behind them. It names no pieces,
    and so shows that these do not matter. -/
def readingOf (cipher : TransportCipher) : List Bytes → Bytes → Reading
  | [], tail => ⟨[], if tail.isEmpty then none else some (.framing (.cutOff tail.length))⟩
  | body :: bodies, tail =>
    if maxFrameLength < body.length + 1 then .stopped (.framing (.tooLarge (body.length + 1)))
    else
      match payloadOf cipher body with
      | .error e => .stopped e
      | .ok payload => (readingOf cipher bodies tail).behind [payload]

def reading (cipher : TransportCipher) (stream : Bytes) : Reading :=
  readingOf cipher (cut stream).1 (cut stream).2

theorem reading_of_notMem (cipher : TransportCipher) {stream : Bytes} (h : endMark ∉ stream) :
    reading cipher stream =
      ⟨[], if stream.isEmpty then none else some (.framing (.cutOff stream.length))⟩ := by
  rw [reading, cut_of_notMem h]
  rfl

theorem reading_of_mark (cipher : TransportCipher) {body : Bytes} (h : endMark ∉ body) (rest : Bytes) :
    reading cipher (body ++ endMark :: rest) =
      if maxFrameLength < body.length + 1 then .stopped (.framing (.tooLarge (body.length + 1)))
      else
        match payloadOf cipher body with
        | .error e => .stopped e
        | .ok payload => (reading cipher rest).behind [payload] := by
  rw [reading, cut_of_mark h]
  rfl

/-- With no room left for a mark, it no longer matters whether one comes. -/
theorem coarse_reading_of_long (cipher : TransportCipher) {buffer : Bytes}
    (h : endMark ∉ buffer) (hlong : maxFrameLength ≤ buffer.length) (more : Bytes) :
    (reading cipher (buffer ++ more)).coarse = .stopped (.framing (.described "")) := by
  have hne : buffer.length ≠ 0 := by
    have hpos : 0 < maxFrameLength := by decide
    omega
  by_cases hmore : endMark ∈ more
  · -- a mark that comes closes a frame that is too long
    obtain ⟨body, rest, rfl, hbody⟩ := List.eq_append_cons_of_mem hmore
    have hwhole : endMark ∉ buffer ++ body := by simp [h, hbody]
    rw [← List.append_assoc, reading_of_mark cipher hwhole, if_pos (by rw [List.length_append]; omega)]
    exact Reading.coarse_stopped_framing _
  · -- without one the rest is too long by itself, and the two faults differ in their text only
    have hwhole : endMark ∉ buffer ++ more := by simp [h, hmore]
    rw [reading_of_notMem cipher hwhole, if_neg (by simp_all)]
    exact Reading.coarse_stopped_framing _

/-- A bad body is that of the frame behind those that gave payloads. -/
theorem payloadOf_of_reading {cipher : TransportCipher} {stream : Bytes} {cause : CryptoError}
    (h : (reading cipher stream).fault = some (.crypto cause)) :
    ∃ body, (bodies stream)[(reading cipher stream).payloads.length]? = some body ∧
      payloadOf cipher body = .error (.crypto cause) := by
  unfold reading at h ⊢
  unfold bodies
  generalize (cut stream).1 = bs at h ⊢
  -- the frames with payloads are counted off; the first one without ends the reading
  induction bs with
  -- the fault behind the last frame is one of the framing
  | nil =>
    simp only [readingOf] at h
    split at h <;> cases h
  | cons body bs ih =>
    unfold readingOf at h ⊢
    split at h
    · cases h
    · rename_i hshort
      rw [if_neg hshort]
      cases hpayload : payloadOf cipher body with
      | error e =>
        simp only [hpayload] at h ⊢
        cases h
        exact ⟨body, rfl, hpayload⟩
      | ok payload =>
        simp only [hpayload] at h ⊢
        obtain ⟨bad, hbad, hfails⟩ := ih h
        exact ⟨bad, by simpa [Reading.behind] using hbad, hfails⟩

/-! ## Between two pieces -/

variable {cipher : TransportCipher}

/-- The decoder waits: there is no frame in the buffer, and room for more of one. Between two
    pieces it is always in this state, unless it has failed. -/
structure IsWaiting (cipher : TransportCipher) (c : PacketCodec) (buffer : Bytes) : Prop where
  cipher_eq : c.cipher = cipher
  isSearched : c.IsSearched buffer
  notMem : endMark ∉ buffer
  length_lt : buffer.length < maxFrameLength

theorem isWaiting_start (cipher : TransportCipher) : IsWaiting cipher (start cipher) [] :=
  ⟨rfl, isSearched_start _ _, List.not_mem_nil, by decide⟩

/-- The end of the stream, met by a decoder that waits. -/
theorem IsWaiting.readFrom_nil {c : PacketCodec} {buffer : Bytes}
    (h : IsWaiting cipher c buffer) : c.readFrom buffer [] = reading cipher buffer := by
  rw [reading_of_notMem cipher h.notMem]
  simp only [readFrom, decodeEnd, c.decode_of_notMem h.notMem, if_neg (Nat.not_le.mpr h.length_lt)]
  cases hempty : buffer.isEmpty with
  | true => rfl
  | false => rfl

/-- Calls on a buffer either meet the fault that the reading of the whole stream meets, or
    leave a decoder that waits and the rest of the reading to do. -/
theorem takeAll_cases {c : PacketCodec} {buffer : Bytes} (hcipher : c.cipher = cipher)
    (hsearched : c.IsSearched buffer) :
    ∃ payloads fault c' rest, c.takeAll buffer = (⟨payloads, fault⟩, c', rest) ∧
      match fault with
      | some e => ∀ more, (reading cipher (buffer ++ more)).coarse =
          (Reading.mk payloads (some e)).coarse
      | none => IsWaiting cipher c' rest ∧
          ∀ more, reading cipher (buffer ++ more) = (reading cipher (rest ++ more)).behind payloads := by
  obtain ⟨bs, tail, rfl, hbs, htail⟩ := exists_eq_joined buffer
  -- each call takes one frame off, so the frames are counted down
  induction bs generalizing c with
  | nil =>
    have hcalls := c.takeAll_of_notMem htail
    rw [show joined [] ++ tail = tail from rfl]
    -- no frame is left: what stands there is too long already, or may still become one
    by_cases hlong : maxFrameLength ≤ tail.length
    · rw [if_pos hlong] at hcalls
      exact ⟨_, _, _, _, hcalls, coarse_reading_of_long cipher htail hlong⟩
    · rw [if_neg hlong] at hcalls
      refine ⟨_, _, _, _, hcalls, ⟨hcipher, ⟨Nat.le_refl _, ?_⟩, htail, Nat.not_le.mp hlong⟩, ?_⟩
      · exact fun hmem => htail (List.mem_of_mem_take hmem)
      · exact fun more => rfl
  | cons body bs ih =>
    have hbody := hbs body List.mem_cons_self
    rw [joined_cons] at hsearched ⊢
    have hcalls := takeAll_of_mark hbody hsearched
    have hreading := fun more => reading_of_mark cipher hbody (joined bs ++ tail ++ more)
    rw [hcipher] at hcalls
    -- a fault of the frame in front is met whatever comes behind it; a payload leaves the other
    -- frames
    by_cases hlong : maxFrameLength < body.length + 1
    · rw [if_pos hlong] at hcalls
      refine ⟨_, _, _, _, hcalls, fun more => ?_⟩
      rw [List.append_assoc, List.cons_append, hreading, if_pos hlong]
      rfl
    · rw [if_neg hlong] at hcalls
      cases hpayload : payloadOf cipher body with
      | error e =>
        rw [hpayload] at hcalls
        refine ⟨_, _, _, _, hcalls, fun more => ?_⟩
        rw [List.append_assoc, List.cons_append, hreading, if_neg hlong, hpayload]
        rfl
      | ok payload =>
        rw [hpayload] at hcalls
        obtain ⟨payloads, fault, c', rest, hrest, hcases⟩ := ih (c := start cipher) rfl
          (isSearched_start _ _) fun body' hmem => hbs body' (List.mem_cons_of_mem _ hmem)
        simp only [hrest] at hcalls
        refine ⟨payload :: payloads, fault, c', rest, hcalls, ?_⟩
        -- more bytes come behind all frames, so they do not change the first one
        have hfirst : ∀ more, reading cipher (body ++ endMark :: (joined bs ++ tail) ++ more) =
            (reading cipher (joined bs ++ tail ++ more)).behind [payload] := by
          intro more
          rw [List.append_assoc, List.cons_append, hreading, if_neg hlong, hpayload]
        cases fault with
        | some e =>
          intro more
          rw [hfirst, Reading.coarse_behind, hcases more]
          rfl
        | none =>
          refine ⟨hcases.1, fun more => ?_⟩
          rw [hfirst, hcases.2 more, Reading.behind_behind]
          rfl

/-- Reading in pieces gives the reading of the whole. What carries this from one piece to the
    next is that a decoder which waits has lost nothing of the stream. -/
theorem IsWaiting.coarse_readFrom {c : PacketCodec} {buffer : Bytes}
    (h : IsWaiting cipher c buffer) (pieces : List Bytes) :
    (c.readFrom buffer pieces).coarse = (reading cipher (buffer ++ pieces.flatten)).coarse := by
  induction pieces generalizing c buffer with
  | nil => rw [h.readFrom_nil, List.flatten_nil, List.append_nil]
  | cons piece pieces ih =>
    obtain ⟨payloads, fault, c', rest, hcalls, hcases⟩ :=
      takeAll_cases h.cipher_eq (h.isSearched.append piece)
    rw [List.flatten_cons, ← List.append_assoc, readFrom, hcalls]
    -- a fault ends the reading in either way; without one the decoder waits for the next piece
    cases fault with
    | some e => exact (hcases pieces.flatten).symm
    | none =>
      obtain ⟨hwaiting, hreading⟩ := hcases
      show ((c'.readFrom rest pieces).behind payloads).coarse = _
      rw [Reading.coarse_behind, ih hwaiting, hreading, Reading.coarse_behind]

/-! ## Independence of the pieces -/

/-- However a stream is cut into pieces, the same payloads come out, and the reading ends with
    the stream or at a fault of the same kind. A fault of the cipher has the same cause, and it
    is met in the same frame. -/
theorem read_eq_of_flatten_eq (cipher : TransportCipher) {pieces pieces' : List Bytes}
    (h : pieces.flatten = pieces'.flatten) :
    (read cipher pieces).payloads = (read cipher pieces').payloads ∧
      (read cipher pieces).fault.map NetworkError.coarse =
        (read cipher pieces').fault.map NetworkError.coarse ∧
      ∀ cause, (read cipher pieces).fault = some (.crypto cause) →
        (read cipher pieces').fault = some (.crypto cause) ∧
          ∃ body, (bodies pieces.flatten)[(read cipher pieces).payloads.length]? = some body ∧
            payloadOf cipher body = .error (.crypto cause) := by
  -- both readings are compared with that of the uncut stream
  have hwhole : (read cipher pieces).coarse = (reading cipher pieces.flatten).coarse :=
    (isWaiting_start cipher).coarse_readFrom pieces
  have hwhole' : (read cipher pieces').coarse = (reading cipher pieces'.flatten).coarse :=
    (isWaiting_start cipher).coarse_readFrom pieces'
  have hsame : (read cipher pieces).coarse = (read cipher pieces').coarse := by
    rw [hwhole, hwhole', h]
  have hpayloads : (read cipher pieces).payloads = (read cipher pieces').payloads := by
    simpa [Reading.coarse] using congrArg Reading.payloads hsame
  refine ⟨hpayloads, congrArg Reading.fault hsame, fun cause hfault => ?_⟩
  have hcoarse : (read cipher pieces).coarse.fault = some (.crypto cause) := by
    rw [Reading.coarse, hfault]
    rfl
  refine ⟨Reading.fault_of_coarse (hsame ▸ hcoarse), ?_⟩
  -- the bad frame is found by reading the whole stream
  have hcount : (read cipher pieces).payloads = (reading cipher pieces.flatten).payloads := by
    simpa [Reading.coarse] using congrArg Reading.payloads hwhole
  obtain ⟨body, hbody, hfails⟩ :=
    payloadOf_of_reading (Reading.fault_of_coarse (hwhole ▸ hcoarse))
  rw [hcount]
  exact ⟨body, hbody, hfails⟩

/-- A frame and a bad one, in one piece and in three. -/
theorem read_eq_of_flatten_eq_small :
    let stream := frameOf ⟨id, .zero⟩ [1, 2] ++ [33, endMark]
    (read ⟨id, .zero⟩ [stream.take 3, [], stream.drop 3]).payloads = [[1, 2]] ∧
      (read ⟨id, .zero⟩ [stream.take 3, [], stream.drop 3]).fault = some (.crypto .base64) := by
  intro stream
  have hpieces : [stream].flatten = [stream.take 3, [], stream.drop 3].flatten := by
    simp [List.take_append_drop]
  have hwhole : (read ⟨id, .zero⟩ [stream]).coarse = (reading ⟨id, .zero⟩ [stream].flatten).coarse :=
    (isWaiting_start _).coarse_readFrom [stream]
  have hreading : reading ⟨id, .zero⟩ [stream].flatten = ⟨[[1, 2]], some (.crypto .base64)⟩ := by
    decide +kernel
  rw [hreading] at hwhole
  obtain ⟨hpayloads, -, hcrypto⟩ := read_eq_of_flatten_eq ⟨id, .zero⟩ hpieces
  refine ⟨?_, (hcrypto .base64 (Reading.fault_of_coarse (by rw [hwhole]; rfl))).1⟩
  rw [← hpayloads]
  simpa [Reading.coarse] using congrArg Reading.payloads hwhole

end PacketCodec
end SoloMiner
