import Mathlib.Data.List.Induction
import Mathlib.Data.List.Infix
import SoloMiner.Proofs.Cipher.TransportRoundTrip
import SoloMiner.Proofs.Encoding.Base64
import SoloMiner.Proofs.Wire.Decoding

/-! # Round trip of frames

    Frames that are written one behind the other, cut into pieces at any place and fed to a
    decoder give back their payloads, each once and in order, however calls and pieces
    alternate. A payload too long for its frame is refused, and its frame is never passed.

    The invariant says that what was fed is the frames of the payloads decoded so far, with the
    buffer behind them. A call of the decoder either finds the buffer to end inside the next
    frame and waits, or takes just that frame off. -/

namespace SoloMiner

/-! ## Frames -/

namespace PacketCodec

/-- The length of the longest payload that has a frame. One byte more makes a block more, and
    then there is no room left for the mark. -/
def maxPayloadLength : Nat := 49135

/-- A frame without its mark. -/
def bodyOf (cipher : TransportCipher) (payload : Bytes) : Bytes :=
  Base64.encode (cipher.encrypt payload)

variable (cipher : TransportCipher)

theorem frameOf_eq (payload rest : Bytes) :
    frameOf cipher payload ++ rest = bodyOf cipher payload ++ endMark :: rest := by
  simp [frameOf, bodyOf]

theorem endMark_notMem_bodyOf (payload : Bytes) : endMark ∉ bodyOf cipher payload := by
  intro h
  rcases Base64.of_mem_encode h with hfiller | ⟨v, hv⟩
  · exact absurd hfiller (by decide)
  · exact Base64.symbol_ne_asterisk v hv.symm

theorem payloadOf_bodyOf (payload : Bytes) :
    payloadOf cipher (bodyOf cipher payload) = .ok payload := by
  rw [payloadOf, bodyOf, Base64.decode?_encode]
  show (cipher.decrypt (cipher.encrypt payload)).mapError NetworkError.crypto = _
  rw [TransportCipher.decrypt_encrypt]
  rfl

/-- Padding and base64 together decide which payloads have a frame. -/
theorem length_bodyOf_lt_iff (payload : Bytes) :
    (bodyOf cipher payload).length < maxFrameLength ↔ payload.length ≤ maxPayloadLength := by
  rw [bodyOf, Base64.length_encode, TransportCipher.length_encrypt]
  simp only [maxFrameLength, maxPayloadLength]
  omega

/-- The frames of some payloads, one behind the other. -/
def stream (sender : PacketCodec) (payloads : List Bytes) : Bytes :=
  payloads.flatMap fun payload => sender.encode (.encrypted payload)

theorem stream_cons (sender : PacketCodec) (payload : Bytes) (payloads : List Bytes) :
    sender.stream (payload :: payloads) =
      bodyOf sender.cipher payload ++ endMark :: sender.stream payloads := by
  rw [← frameOf_eq]
  rfl

theorem stream_append (sender : PacketCodec) (ps qs : List Bytes) :
    sender.stream (ps ++ qs) = sender.stream ps ++ sender.stream qs :=
  List.flatMap_append

/-- What has begun to arrive of a frame and more ends inside the frame or behind its mark. -/
theorem prefix_frame_cases {bs body rest : Bytes} (h : bs <+: body ++ endMark :: rest) :
    bs <+: body ∨ ∃ bs', bs = body ++ endMark :: bs' ∧ bs' <+: rest := by
  -- the bytes that arrived are compared with the frame, one by one
  induction body generalizing bs with
  | nil =>
    cases bs with
    | nil => exact Or.inl List.nil_prefix
    | cons b bs =>
      obtain ⟨rfl, hrest⟩ := List.cons_prefix_cons.mp h
      exact Or.inr ⟨bs, rfl, hrest⟩
  | cons c body ih =>
    cases bs with
    | nil => exact Or.inl List.nil_prefix
    | cons b bs =>
      obtain ⟨rfl, hrest⟩ := List.cons_prefix_cons.mp h
      rcases ih hrest with hinside | ⟨bs', rfl, hbs'⟩
      · exact Or.inl (List.cons_prefix_cons.mpr ⟨rfl, hinside⟩)
      · exact Or.inr ⟨bs', rfl, hbs'⟩

end PacketCodec

/-! ## Runs of a decoder -/

/-- What happens to a decoder. -/
inductive ReceiverStep where
  | feed (chunk : Bytes)
  | decode
  deriving DecidableEq, Repr

/-- All that was fed. -/
def ReceiverStep.fed (steps : List ReceiverStep) : Bytes :=
  steps.flatMap fun s => match s with
    | .feed chunk => chunk
    | .decode => []

/-- A decoder, the bytes it has not consumed, and the outcomes of its calls. -/
structure Receiver where
  codec : PacketCodec
  buffer : Bytes
  outcomes : List (Except NetworkError (Option Bytes))

namespace Receiver

def start (cipher : TransportCipher) : Receiver := ⟨.start cipher, [], []⟩

def step (r : Receiver) : ReceiverStep → Receiver
  | .feed chunk => { r with buffer := r.buffer ++ chunk }
  | .decode =>
    let (outcome, codec, rest) := r.codec.decode r.buffer
    ⟨codec, rest, r.outcomes ++ [outcome]⟩

def run (cipher : TransportCipher) (steps : List ReceiverStep) : Receiver :=
  steps.foldl step (start cipher)

/-- The payloads that came out, in order. -/
def payloads (r : Receiver) : List Bytes :=
  r.outcomes.filterMap fun outcome => match outcome with
    | .ok payload? => payload?
    | .error _ => none

theorem run_concat (cipher : TransportCipher) (steps : List ReceiverStep) (s : ReceiverStep) :
    run cipher (steps ++ [s]) = (run cipher steps).step s := by
  simp [run]

theorem fed_concat (steps : List ReceiverStep) (s : ReceiverStep) :
    ReceiverStep.fed (steps ++ [s]) = ReceiverStep.fed steps ++ ReceiverStep.fed [s] :=
  List.flatMap_append

/-- What holds at the start and is kept by pieces and calls holds of a run that was fed no more
    than the front of `whole`. The induction is on the last step, since a receiver is described
    by all that it was fed so far. -/
theorem run_induction {cipher : TransportCipher} {I : Bytes → Receiver → Prop} {whole : Bytes}
    (hstart : I [] (start cipher))
    (hfeed : ∀ fed r chunk, I fed r → I (fed ++ chunk) (r.step (.feed chunk)))
    (hdecode : ∀ fed r, fed <+: whole → I fed r → I fed (r.step .decode))
    (steps : List ReceiverStep) (hfed : ReceiverStep.fed steps <+: whole) :
    I (ReceiverStep.fed steps) (run cipher steps) := by
  induction steps using List.reverseRecOn with
  | nil => exact hstart
  | append_singleton steps s ih =>
    -- the run in front of the last step was fed no more than the whole run
    rw [fed_concat] at hfed ⊢
    have hbefore := ih ((List.prefix_append _ _).trans hfed)
    rw [run_concat]
    cases s with
    | feed chunk =>
      have hchunk : ReceiverStep.fed [.feed chunk] = chunk := by simp [ReceiverStep.fed]
      rw [hchunk]
      exact hfeed _ _ chunk hbefore
    | decode =>
      have hnone : ReceiverStep.fed [.decode] = [] := rfl
      rw [hnone, List.append_nil] at hfed ⊢
      exact hdecode _ _ hfed hbefore

open PacketCodec

/-! ## Frames that are accepted -/

/-- The receiver follows a sender of `payloads`: what it was fed are the frames of the payloads
    that came out, and its buffer. -/
structure Follows (sender : PacketCodec) (payloads : List Bytes) (fed : Bytes) (r : Receiver) :
    Prop where
  cipher_eq : r.codec.cipher = sender.cipher
  isSearched : r.codec.IsSearched r.buffer
  accepts : ∀ outcome ∈ r.outcomes, ∃ payload?, outcome = .ok payload?
  payloads_prefix : r.payloads <+: payloads
  fed_eq : fed = sender.stream r.payloads ++ r.buffer

variable {sender : PacketCodec} {payloads : List Bytes} {fed : Bytes} {r : Receiver}

theorem follows_start (sender : PacketCodec) (payloads : List Bytes) :
    Follows sender payloads [] (start sender.cipher) :=
  ⟨rfl, isSearched_start _ _, nofun, List.nil_prefix, rfl⟩

theorem Follows.feed (h : Follows sender payloads fed r) (chunk : Bytes) :
    Follows sender payloads (fed ++ chunk) (r.step (.feed chunk)) := by
  refine ⟨h.cipher_eq, h.isSearched.append chunk, h.accepts, h.payloads_prefix, ?_⟩
  rw [h.fed_eq, List.append_assoc]
  rfl

/-- The buffer ends inside the next frame, or holds it. -/
theorem Follows.buffer_cases (h : Follows sender payloads fed r)
    (hfed : fed <+: sender.stream payloads) :
    (r.buffer = [] ∧ r.payloads = payloads) ∨
      ∃ payload left, payloads = r.payloads ++ payload :: left ∧
        (r.buffer <+: bodyOf sender.cipher payload ∨
          ∃ rest, r.buffer = bodyOf sender.cipher payload ++ endMark :: rest ∧
            rest <+: sender.stream left) := by
  obtain ⟨left, hleft⟩ := h.payloads_prefix
  -- what was fed beyond the frames that came out is the buffer
  rw [h.fed_eq, ← hleft, stream_append, List.prefix_append_right_inj] at hfed
  -- either no frame is left to come, or the buffer is held against the next one
  cases left with
  | nil =>
    left
    refine ⟨List.prefix_nil.mp hfed, ?_⟩
    rw [← hleft, List.append_nil]
  | cons payload left =>
    right
    rw [stream_cons] at hfed
    exact ⟨payload, left, hleft.symm, prefix_frame_cases hfed⟩

/-- A call on a buffer that ends inside a frame waits. It changes nothing but how far the buffer
    has been searched. -/
theorem Follows.decode_waits (h : Follows sender payloads fed r) (hmark : endMark ∉ r.buffer)
    (hlength : r.buffer.length < maxFrameLength) :
    Follows sender payloads fed (r.step .decode) ∧ (r.step .decode).payloads = r.payloads := by
  have hstep : r.step .decode =
      ⟨{ r.codec with searched := r.buffer.length }, r.buffer, r.outcomes ++ [.ok none]⟩ := by
    rw [step, decode_of_notMem _ hmark, if_neg (Nat.not_le.mpr hlength)]
  -- a call that waits adds an outcome and no payload
  have hpayloads : (r.step .decode).payloads = r.payloads := by
    rw [hstep, Receiver.payloads, List.filterMap_append]
    exact List.append_nil _
  refine ⟨⟨?_, ?_, ?_, ?_, ?_⟩, hpayloads⟩
  · rw [hstep]
    exact h.cipher_eq
  · rw [hstep]
    exact ⟨Nat.le_refl _, fun hmem => hmark (List.mem_of_mem_take hmem)⟩
  · rw [hstep]
    intro outcome houtcome
    rcases List.mem_append.mp houtcome with hold | hnew
    · exact h.accepts outcome hold
    · exact ⟨none, List.mem_singleton.mp hnew⟩
  · rw [hpayloads]
    exact h.payloads_prefix
  · rw [hpayloads, hstep]
    exact h.fed_eq

/-- A call on a buffer that holds the next frame takes it off. -/
theorem Follows.decode_takes (h : Follows sender payloads fed r) {payload rest : Bytes}
    {left : List Bytes} (hpayloads : payloads = r.payloads ++ payload :: left)
    (hbuffer : r.buffer = bodyOf sender.cipher payload ++ endMark :: rest)
    (hlength : payload.length ≤ maxPayloadLength) :
    Follows sender payloads fed (r.step .decode) ∧
      (r.step .decode).payloads = r.payloads ++ [payload] := by
  have hsearched := h.isSearched
  rw [hbuffer] at hsearched
  have hstep : r.step .decode =
      ⟨⟨sender.cipher, 0⟩, rest, r.outcomes ++ [.ok (some payload)]⟩ := by
    -- the payload is short enough for its frame to be within the bound
    have hfits := (length_bodyOf_lt_iff sender.cipher payload).mpr hlength
    rw [step, hbuffer, decode_of_mark (endMark_notMem_bodyOf _ _) hsearched,
      if_neg (Nat.not_lt.mpr hfits), h.cipher_eq, payloadOf_bodyOf]
    rfl
  have htaken : (r.step .decode).payloads = r.payloads ++ [payload] := by
    rw [hstep, Receiver.payloads, List.filterMap_append]
    rfl
  refine ⟨⟨?_, ?_, ?_, ?_, ?_⟩, htaken⟩
  · rw [hstep]
  · rw [hstep]
    exact ⟨Nat.zero_le _, by simp⟩
  · rw [hstep]
    intro outcome houtcome
    rcases List.mem_append.mp houtcome with hold | hnew
    · exact h.accepts outcome hold
    · exact ⟨some payload, List.mem_singleton.mp hnew⟩
  · rw [htaken, hpayloads]
    exact ⟨left, by simp⟩
  · -- what was in front of the rest is now accounted for by the new payload
    rw [htaken, hstep, stream_append, h.fed_eq, hbuffer, stream_cons]
    simp [stream]

/-- A call of a receiver that follows keeps it following. It is in vain only if the next frame
    has not arrived in full. -/
theorem Follows.decode (h : Follows sender payloads fed r)
    (hsize : ∀ payload ∈ payloads, payload.length ≤ maxPayloadLength)
    (hfed : fed <+: sender.stream payloads) :
    Follows sender payloads fed (r.step .decode) ∧
      (fed = sender.stream payloads →
        min (r.payloads.length + 1) payloads.length ≤ (r.step .decode).payloads.length) := by
  rcases h.buffer_cases hfed with ⟨hbuffer, hall⟩ | ⟨payload, left, hpayloads, hinside | hholds⟩
  · -- all payloads have come out, and nothing is left to decode
    obtain ⟨hnext, hsame⟩ := h.decode_waits (by rw [hbuffer]; exact List.not_mem_nil)
      (by rw [hbuffer]; decide)
    refine ⟨hnext, fun _ => ?_⟩
    rw [hsame, hall]
    exact Nat.min_le_right _ _
  · -- the next frame has begun to arrive, and its mark is still to come
    have hmem : payload ∈ payloads := by rw [hpayloads]; simp
    have hfits := (length_bodyOf_lt_iff sender.cipher payload).mpr (hsize payload hmem)
    have hmark : endMark ∉ r.buffer :=
      fun hmem => endMark_notMem_bodyOf _ _ (hinside.subset hmem)
    obtain ⟨hnext, hsame⟩ := h.decode_waits hmark (Nat.lt_of_le_of_lt hinside.length_le hfits)
    refine ⟨hnext, fun hall => ?_⟩
    -- had everything arrived, the mark of the next frame would be in the buffer
    have hfed_eq := h.fed_eq
    rw [hall, hpayloads, stream_append, List.append_cancel_left_eq, stream_cons] at hfed_eq
    refine (hmark ?_).elim
    rw [← hfed_eq]
    simp
  · -- the next frame is complete
    obtain ⟨rest, hbuffer, -⟩ := hholds
    have hmem : payload ∈ payloads := by rw [hpayloads]; simp
    obtain ⟨hnext, htaken⟩ := h.decode_takes hpayloads hbuffer (hsize payload hmem)
    refine ⟨hnext, fun _ => ?_⟩
    rw [htaken, List.length_append]
    exact Nat.min_le_left _ _

theorem follows_run (hsize : ∀ payload ∈ payloads, payload.length ≤ maxPayloadLength)
    (steps : List ReceiverStep) (hfed : ReceiverStep.fed steps <+: sender.stream payloads) :
    Follows sender payloads (ReceiverStep.fed steps) (run sender.cipher steps) := by
  refine run_induction (follows_start sender payloads) ?_ ?_ steps hfed
  · exact fun fed r chunk h => h.feed chunk
  · exact fun fed r hprefix h => (h.decode hsize hprefix).1

/-- Once everything was fed, as many calls as there are payloads bring out all of them, for each
    call brings out one more until none is left. -/
theorem Follows.decode_all (h : Follows sender payloads (sender.stream payloads) r)
    (hsize : ∀ payload ∈ payloads, payload.length ≤ maxPayloadLength) (n : Nat)
    (hn : payloads.length ≤ r.payloads.length + n) :
    ((List.replicate n ReceiverStep.decode).foldl step r).payloads = payloads ∧
      ((List.replicate n ReceiverStep.decode).foldl step r).buffer = [] := by
  induction n generalizing r with
  | zero =>
    have hall : r.payloads = payloads := h.payloads_prefix.eq_of_length_le hn
    refine ⟨hall, ?_⟩
    have hfed := h.fed_eq
    rw [hall] at hfed
    exact List.append_right_eq_self.mp hfed.symm
  | succ n ih =>
    obtain ⟨hnext, hmore⟩ := h.decode hsize (List.prefix_refl _)
    have hcount := hmore rfl
    rw [List.replicate_succ, List.foldl_cons]
    refine ih hnext ?_
    omega

/-! ## Frames that are refused -/

/-- The receiver holds all it was fed, and refused to make anything of it. Each of its calls
    found no whole frame, or a framing fault. -/
structure Refuses (fed : Bytes) (r : Receiver) : Prop where
  buffer_eq : r.buffer = fed
  isSearched : r.codec.IsSearched r.buffer
  refuses : ∀ outcome ∈ r.outcomes,
    outcome = .ok none ∨ ∃ fault, outcome = .error (.framing fault)

theorem refuses_start (cipher : TransportCipher) : Refuses [] (start cipher) :=
  ⟨rfl, isSearched_start _ _, nofun⟩

theorem Refuses.feed (h : Refuses fed r) (chunk : Bytes) :
    Refuses (fed ++ chunk) (r.step (.feed chunk)) := by
  refine ⟨?_, h.isSearched.append chunk, h.refuses⟩
  rw [← h.buffer_eq]
  rfl

/-- A call that consumes nothing and makes nothing of the buffer. -/
theorem Refuses.of_step (h : Refuses fed r)
    {codec : PacketCodec} {outcome : Except NetworkError (Option Bytes)}
    (hstep : r.step .decode = ⟨codec, r.buffer, r.outcomes ++ [outcome]⟩)
    (hsearched : codec.IsSearched r.buffer)
    (houtcome : outcome = .ok none ∨ ∃ fault, outcome = .error (.framing fault)) :
    Refuses fed (r.step .decode) := by
  rw [hstep]
  refine ⟨h.buffer_eq, hsearched, ?_⟩
  intro outcome' hmem
  rcases List.mem_append.mp hmem with hold | hnew
  · exact h.refuses outcome' hold
  · rw [List.mem_singleton.mp hnew]
    exact houtcome

/-- No call makes anything of the frame of a payload that is too long, and a call on all of it
    fails. -/
theorem Refuses.decode {cipher : TransportCipher} {payload : Bytes} (h : Refuses fed r)
    (hlength : maxPayloadLength < payload.length) (hfed : fed <+: frameOf cipher payload) :
    Refuses fed (r.step .decode) ∧
      (fed = frameOf cipher payload → ∃ fault,
        (r.step .decode).outcomes = r.outcomes ++ [.error (.framing fault)]) := by
  -- the frame is longer than the bound because its payload is longer than the largest one
  have hlong : maxFrameLength < (bodyOf cipher payload).length + 1 := by
    refine Nat.lt_succ_of_le (Nat.not_lt.mp fun hlt => ?_)
    exact Nat.not_le.mpr hlength ((length_bodyOf_lt_iff cipher payload).mp hlt)
  have hnomark := endMark_notMem_bodyOf cipher payload
  have hcases : fed <+: bodyOf cipher payload ∨
      ∃ rest, fed = bodyOf cipher payload ++ endMark :: rest ∧ rest <+: [] :=
    prefix_frame_cases hfed
  rcases hcases with hinside | ⟨rest, hwhole, hrest⟩
  · -- short of its mark the frame is waited for, or there is no room left for one
    have hmark : endMark ∉ r.buffer := fun hmem => hnomark (hinside.subset (h.buffer_eq ▸ hmem))
    refine ⟨?_, fun hall => ?_⟩
    · by_cases hroom : maxFrameLength ≤ r.buffer.length
      · have hstep : r.step .decode = ⟨r.codec, r.buffer,
            r.outcomes ++ [.error (.framing (.noEndMark maxFrameLength))]⟩ := by
          rw [step, decode_of_notMem _ hmark, if_pos hroom]
        exact h.of_step hstep h.isSearched (Or.inr ⟨_, rfl⟩)
      · have hstep : r.step .decode = ⟨{ r.codec with searched := r.buffer.length }, r.buffer,
            r.outcomes ++ [.ok none]⟩ := by
          rw [step, decode_of_notMem _ hmark, if_neg hroom]
        refine h.of_step hstep ⟨Nat.le_refl _, ?_⟩ (Or.inl rfl)
        exact fun hmem => hmark (List.mem_of_mem_take hmem)
    · refine (hmark ?_).elim
      rw [h.buffer_eq, hall]
      exact List.mem_append_right _ List.mem_cons_self
  · -- the mark has arrived, but too far behind
    obtain rfl := List.prefix_nil.mp hrest
    have hbuffer := h.buffer_eq.trans hwhole
    have hsearched := h.isSearched
    rw [hbuffer] at hsearched
    have hstep : r.step .decode = ⟨{ r.codec with searched := 0 }, r.buffer, r.outcomes ++
        [.error (.framing (.tooLarge ((bodyOf cipher payload).length + 1)))]⟩ := by
      rw [step, hbuffer, decode_of_mark hnomark hsearched, if_pos hlong]
    refine ⟨h.of_step hstep ⟨Nat.zero_le _, by simp⟩ (Or.inr ⟨_, rfl⟩), fun _ => ?_⟩
    rw [hstep]
    exact ⟨_, rfl⟩

theorem refuses_run {cipher : TransportCipher} {payload : Bytes}
    (hlength : maxPayloadLength < payload.length) (steps : List ReceiverStep)
    (hfed : ReceiverStep.fed steps <+: frameOf cipher payload) :
    Refuses (ReceiverStep.fed steps) (run cipher steps) := by
  refine run_induction (refuses_start cipher) ?_ ?_ steps hfed
  · exact fun fed r chunk h => h.feed chunk
  · exact fun fed r hprefix h => (h.decode hlength hprefix).1

/-! ## Both directions -/

/-- Payloads of at most 49135 bytes come out of their frames each once and in order, whatever
    pieces the frames are cut into and whenever the decoder is called; no call fails, and when
    all have come out nothing is left. A longer payload has a frame that is never passed, and
    that a call fails on as soon as it is complete. -/
theorem frames_round_trip (sender : PacketCodec) :
    (∀ (payloads : List Bytes) (steps : List ReceiverStep),
      (∀ payload ∈ payloads, payload.length ≤ 49135) →
      ReceiverStep.fed steps <+: sender.stream payloads →
        (∀ outcome ∈ (run sender.cipher steps).outcomes, ∃ payload?, outcome = .ok payload?) ∧
        (run sender.cipher steps).payloads <+: payloads ∧
        ReceiverStep.fed steps =
          sender.stream (run sender.cipher steps).payloads ++ (run sender.cipher steps).buffer ∧
        ((run sender.cipher steps).payloads = payloads → (run sender.cipher steps).buffer = []) ∧
        (ReceiverStep.fed steps = sender.stream payloads → ∀ n, payloads.length ≤ n →
          (run sender.cipher (steps ++ List.replicate n .decode)).payloads = payloads ∧
            (run sender.cipher (steps ++ List.replicate n .decode)).buffer = [])) ∧
    (∀ (payload : Bytes) (steps : List ReceiverStep), 49136 ≤ payload.length →
      ReceiverStep.fed steps <+: sender.encode (.encrypted payload) →
        (∀ outcome ∈ (run sender.cipher steps).outcomes,
          outcome = .ok none ∨ ∃ fault, outcome = .error (.framing fault)) ∧
        (ReceiverStep.fed steps = sender.encode (.encrypted payload) → ∃ fault,
          (run sender.cipher (steps ++ [.decode])).outcomes =
            (run sender.cipher steps).outcomes ++ [.error (.framing fault)])) := by
  refine ⟨?_, ?_⟩
  · -- payloads within the bound: the receiver follows the sender
    intro payloads steps hsize hfed
    have h := follows_run hsize steps hfed
    refine ⟨h.accepts, h.payloads_prefix, h.fed_eq, fun hall => ?_, fun hall n hn => ?_⟩
    · have hlength := hfed.length_le
      rw [h.fed_eq, hall, List.length_append] at hlength
      exact List.length_eq_zero_iff.mp (by omega)
    · rw [hall] at h
      rw [run, List.foldl_append]
      exact h.decode_all hsize n (by omega)
  · -- a payload beyond it: the receiver refuses whatever it has of the frame
    intro payload steps hlength hfed
    have h := refuses_run hlength steps hfed
    refine ⟨h.refuses, fun hall => ?_⟩
    rw [run_concat]
    exact (h.decode hlength hfed).2 hall

/-- Two frames cut behind their third byte, and a frame that is too long. -/
theorem frames_round_trip_small :
    (run ⟨id, .zero⟩
        ([.feed (((PacketCodec.start ⟨id, .zero⟩).stream [[1, 2], []]).take 3), .decode,
          .feed (((PacketCodec.start ⟨id, .zero⟩).stream [[1, 2], []]).drop 3)] ++
          List.replicate 2 .decode)).payloads = [[1, 2], []] ∧
      ∃ fault, (run ⟨id, .zero⟩
          ([.feed (frameOf ⟨id, .zero⟩ (List.replicate 49136 0))] ++ [.decode])).outcomes =
        [.error (.framing fault)] := by
  obtain ⟨haccepts, hrefuses⟩ := frames_round_trip (.start ⟨id, .zero⟩)
  have hfed : ReceiverStep.fed
      [.feed (((PacketCodec.start ⟨id, .zero⟩).stream [[1, 2], []]).take 3), .decode,
        .feed (((PacketCodec.start ⟨id, .zero⟩).stream [[1, 2], []]).drop 3)] =
      (PacketCodec.start ⟨id, .zero⟩).stream [[1, 2], []] := by
    simp [ReceiverStep.fed, List.take_append_drop]
  have hlong : ∀ payload, ReceiverStep.fed [.feed (frameOf ⟨id, .zero⟩ payload)] =
      frameOf ⟨id, .zero⟩ payload := by
    intro payload
    simp [ReceiverStep.fed]
  have hlength : 49136 ≤ (List.replicate 49136 (0 : UInt8)).length :=
    Nat.le_of_eq List.length_replicate.symm
  obtain ⟨-, -, -, -, hall⟩ := haccepts [[1, 2], []] _ (by decide)
    (by rw [hfed])
  obtain ⟨-, hfails⟩ := hrefuses (List.replicate 49136 0) _ hlength
    (by rw [hlong]; rfl)
  exact ⟨(hall hfed 2 (by decide)).1, hfails (hlong _)⟩

end Receiver
end SoloMiner
