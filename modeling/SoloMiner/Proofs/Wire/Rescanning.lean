import SoloMiner.Proofs.Wire.RoundTrip

/-! # Decoding without memory

    The position that a decoder remembers is there to save work, and work is all that it saves.
    A scanner does the same without it: each call looks at the whole buffer. Whatever is done
    with a decoder and its buffer, and whatever calls failed before, the two cannot be told
    apart.

    A frame that has grown too long blocks the buffer for good. The bytes in front of the place
    where its mark would have had to be stay as they are, so every call meets the same fault. -/

namespace SoloMiner

/-- What can be done with a decoder and its buffer. -/
inductive CodecStep where
  | feed (chunk : Bytes)
  /-- Appends the bytes of a frame. -/
  | encode (frame : Frame)
  | decode
  | decodeEnd
  deriving DecidableEq, Repr

/-- Is it a call of the decoder? -/
def CodecStep.isCall : CodecStep → Bool
  | .feed _ | .encode _ => false
  | .decode | .decodeEnd => true

/-- A frame is longer than frames may be, whether or not its mark was seen. -/
def FramingFault.IsOversize : FramingFault → Prop
  | .noEndMark _ | .tooLarge _ => True
  | .cutOff _ | .described _ => False

/-- The outcome of a call that met a frame that is too long. -/
def ReportsOversize (outcome : Except NetworkError (Option Bytes)) : Prop :=
  ∃ fault, outcome = .error (.framing fault) ∧ fault.IsOversize

namespace PacketCodec

/-! ## Calls without memory -/

/-- Takes the next frame off the front of the buffer, and looks for its mark from the first
    byte on. -/
def scan (cipher : TransportCipher) (buffer : Bytes) :
    Except NetworkError (Option Bytes) × Bytes :=
  match buffer.idxOf? endMark with
  | none =>
    if maxFrameLength ≤ buffer.length then
      (.error (.framing (.noEndMark maxFrameLength)), buffer)
    else (.ok none, buffer)
  | some mark =>
    if maxFrameLength < mark + 1 then (.error (.framing (.tooLarge (mark + 1))), buffer)
    else ((payloadOf cipher (buffer.take mark)).map some, buffer.drop (mark + 1))

/-- `scan` at the end of the stream. -/
def scanEnd (cipher : TransportCipher) (buffer : Bytes) :
    Except NetworkError (Option Bytes) × Bytes :=
  match scan cipher buffer with
  | (.ok none, rest) =>
    if rest.isEmpty then (.ok none, rest)
    else (.error (.framing (.cutOff rest.length)), rest)
  | outcome => outcome

theorem scan_of_notMem (cipher : TransportCipher) {buffer : Bytes} (h : endMark ∉ buffer) :
    scan cipher buffer =
      if maxFrameLength ≤ buffer.length then
        (.error (.framing (.noEndMark maxFrameLength)), buffer)
      else (.ok none, buffer) := by
  simp only [scan, List.idxOf?_eq_none_iff.mpr h]

theorem scan_of_mark (cipher : TransportCipher) {body : Bytes} (h : endMark ∉ body) (rest : Bytes) :
    scan cipher (body ++ endMark :: rest) =
      if maxFrameLength < body.length + 1 then
        (.error (.framing (.tooLarge (body.length + 1))), body ++ endMark :: rest)
      else ((payloadOf cipher body).map some, rest) := by
  have hdrop : (body ++ endMark :: rest).drop (body.length + 1) = rest := by
    rw [← List.drop_drop, List.drop_left]
    rfl
  simp only [scan, idxOf?_mark h, List.take_left, hdrop]

variable {c : PacketCodec} {buffer : Bytes}

/-- A call does what a scan does, and its memory stays sound on each of its ways out. -/
theorem IsSearched.decode (h : c.IsSearched buffer) :
    ∃ c', c.decode buffer = ((scan c.cipher buffer).1, c', (scan c.cipher buffer).2) ∧
      c'.cipher = c.cipher ∧ c'.IsSearched (scan c.cipher buffer).2 := by
  by_cases hmark : endMark ∈ buffer
  · -- a mark is found, and with it the search starts again from the front
    obtain ⟨body, rest, rfl, hbody⟩ := List.eq_append_cons_of_mem hmark
    have hfresh : ∀ bs, ({ c with searched := 0 } : PacketCodec).IsSearched bs :=
      isSearched_start c.cipher
    rw [decode_of_mark hbody h, scan_of_mark c.cipher hbody rest]
    by_cases hlong : maxFrameLength < body.length + 1
    · rw [if_pos hlong, if_pos hlong]
      exact ⟨_, rfl, rfl, hfresh _⟩
    · rw [if_neg hlong, if_neg hlong]
      exact ⟨_, rfl, rfl, hfresh _⟩
  · -- none is found: the memory grows to the whole buffer, unless that is refused for its length
    rw [decode_of_notMem c hmark, scan_of_notMem c.cipher hmark]
    by_cases hfull : maxFrameLength ≤ buffer.length
    · rw [if_pos hfull, if_pos hfull]
      exact ⟨c, rfl, rfl, h⟩
    · rw [if_neg hfull, if_neg hfull]
      have hnone : endMark ∉ buffer.take buffer.length :=
        fun hmem => hmark (List.mem_of_mem_take hmem)
      exact ⟨_, rfl, rfl, Nat.le_refl _, hnone⟩

/-- The same at the end of the stream. -/
theorem IsSearched.decodeEnd (h : c.IsSearched buffer) :
    ∃ c', c.decodeEnd buffer = ((scanEnd c.cipher buffer).1, c', (scanEnd c.cipher buffer).2) ∧
      c'.cipher = c.cipher ∧ c'.IsSearched (scanEnd c.cipher buffer).2 := by
  obtain ⟨c', hdecode, hcipher, hsearched⟩ := h.decode
  unfold PacketCodec.decodeEnd scanEnd
  rw [hdecode]
  generalize scan c.cipher buffer = scanned at hsearched ⊢
  obtain ⟨outcome, rest⟩ := scanned
  -- the end of the stream adds something only where a call would wait
  cases outcome with
  | error e => exact ⟨c', rfl, hcipher, hsearched⟩
  | ok payload? =>
    cases payload? with
    | some payload => exact ⟨c', rfl, hcipher, hsearched⟩
    | none =>
      by_cases hempty : rest.isEmpty = true
      · simp only [if_pos hempty]
        exact ⟨c', rfl, hcipher, hsearched⟩
      · simp only [if_neg hempty]
        exact ⟨c', rfl, hcipher, hsearched⟩

/-! ## Frames that are too long -/

/-- As many bytes as a frame may have went by without a mark. No further bytes can make a frame
    of them. -/
structure IsOverfull (buffer : Bytes) : Prop where
  length_ge : maxFrameLength ≤ buffer.length
  notMem : endMark ∉ buffer.take maxFrameLength

/-- A decoder could have searched that far. -/
theorem IsOverfull.isSearched (h : IsOverfull buffer) (cipher : TransportCipher) :
    IsSearched ⟨cipher, maxFrameLength⟩ buffer :=
  ⟨h.length_ge, h.notMem⟩

theorem IsOverfull.append (h : IsOverfull buffer) (bs : Bytes) : IsOverfull (buffer ++ bs) := by
  have happend := (h.isSearched ⟨id, .zero⟩).append bs
  exact ⟨happend.searched_le, happend.notMem⟩

/-- A scan takes nothing of a frame that is too long. -/
theorem IsOverfull.scan (h : IsOverfull buffer) (cipher : TransportCipher) :
    ReportsOversize (scan cipher buffer).1 ∧ (PacketCodec.scan cipher buffer).2 = buffer := by
  by_cases hmark : endMark ∈ buffer
  · obtain ⟨body, rest, rfl, hbody⟩ := List.eq_append_cons_of_mem hmark
    have hlong : maxFrameLength ≤ body.length := (h.isSearched cipher).searched_le_body
    rw [scan_of_mark cipher hbody, if_pos (by omega)]
    exact ⟨⟨_, rfl, trivial⟩, rfl⟩
  · rw [scan_of_notMem cipher hmark, if_pos h.length_ge]
    exact ⟨⟨_, rfl, trivial⟩, rfl⟩

/-- What a body is refused for is a matter of the cipher, never of the framing. -/
theorem not_reportsOversize_payloadOf (cipher : TransportCipher) (body : Bytes) :
    ¬ReportsOversize ((payloadOf cipher body).map some) := by
  rintro ⟨fault, hfault, -⟩
  unfold payloadOf at hfault
  cases hbody : Base64.decode? body with
  | none =>
    rw [hbody] at hfault
    cases hfault
  | some cs =>
    rw [hbody] at hfault
    simp only at hfault
    cases hplain : cipher.decrypt cs with
    | error cause =>
      rw [hplain] at hfault
      cases hfault
    | ok payload =>
      rw [hplain] at hfault
      cases hfault

/-- A scan reports a frame that is too long only of a buffer that begins with one, for a body
    that is short enough is refused for other reasons. -/
theorem isOverfull_of_scan (cipher : TransportCipher)
    (h : ReportsOversize (scan cipher buffer).1) : IsOverfull buffer := by
  by_cases hmark : endMark ∈ buffer
  · obtain ⟨body, rest, rfl, hbody⟩ := List.eq_append_cons_of_mem hmark
    rw [scan_of_mark cipher hbody rest] at h
    -- the frame up to the mark is too long, or its body decides
    by_cases hlong : maxFrameLength < body.length + 1
    · have hle : maxFrameLength ≤ body.length := by omega
      refine ⟨?_, ?_⟩
      · rw [List.length_append]
        omega
      · rw [List.take_append_of_le_length hle]
        exact fun hmem => hbody (List.mem_of_mem_take hmem)
    · rw [if_neg hlong] at h
      exact (not_reportsOversize_payloadOf cipher body h).elim
  · rw [scan_of_notMem cipher hmark] at h
    -- without a mark the buffer as a whole is too long, or the scan waits
    by_cases hfull : maxFrameLength ≤ buffer.length
    · exact ⟨hfull, fun hmem => hmark (List.mem_of_mem_take hmem)⟩
    · rw [if_neg hfull] at h
      obtain ⟨fault, hfault, -⟩ := h
      cases hfault

/-- At the end of the stream only a scan that waits has another outcome. -/
theorem scanEnd_of_error {cipher : TransportCipher} {e : NetworkError} {rest : Bytes}
    (h : scan cipher buffer = (.error e, rest)) : scanEnd cipher buffer = (.error e, rest) := by
  unfold scanEnd
  rw [h]

theorem IsOverfull.scanEnd (h : IsOverfull buffer) (cipher : TransportCipher) :
    ReportsOversize (scanEnd cipher buffer).1 ∧
      (PacketCodec.scanEnd cipher buffer).2 = buffer := by
  obtain ⟨⟨fault, hfault, hoversize⟩, hrest⟩ := h.scan cipher
  rw [scanEnd_of_error (Prod.ext hfault hrest)]
  exact ⟨⟨fault, rfl, hoversize⟩, rfl⟩

/-- The same of the scan at the end of the stream. -/
theorem isOverfull_of_scanEnd {cipher : TransportCipher}
    (h : ReportsOversize (scanEnd cipher buffer).1) : IsOverfull buffer := by
  refine isOverfull_of_scan cipher ?_
  unfold scanEnd at h
  generalize hscan : scan cipher buffer = scanned at h ⊢
  obtain ⟨outcome, rest⟩ := scanned
  cases outcome with
  | error e => exact h
  | ok payload? =>
    cases payload? with
    | some payload => exact h
    | none =>
      -- bytes that are left over are another fault
      obtain ⟨fault, hfault, hoversize⟩ := h
      by_cases hempty : rest.isEmpty = true
      · simp only [if_pos hempty] at hfault
        cases hfault
      · simp only [if_neg hempty] at hfault
        cases hfault
        cases hoversize

end PacketCodec

open PacketCodec

/-! ## Runs -/

namespace Receiver

/-- Records a call. -/
def called (r : Receiver) (call : Except NetworkError (Option Bytes) × PacketCodec × Bytes) :
    Receiver :=
  ⟨call.2.1, call.2.2, r.outcomes ++ [call.1]⟩

def perform (r : Receiver) : CodecStep → Receiver
  | .feed chunk => { r with buffer := r.buffer ++ chunk }
  | .encode frame => { r with buffer := r.buffer ++ r.codec.encode frame }
  | .decode => r.called (r.codec.decode r.buffer)
  | .decodeEnd => r.called (r.codec.decodeEnd r.buffer)

def performAll (r : Receiver) (steps : List CodecStep) : Receiver := steps.foldl perform r

end Receiver

/-- A decoder without memory, its buffer, and the outcomes of its calls. It searches the whole
    buffer at every call, which is slow, but plainly right. -/
structure Scanner where
  cipher : TransportCipher
  buffer : Bytes
  outcomes : List (Except NetworkError (Option Bytes))

namespace Scanner

def start (cipher : TransportCipher) : Scanner := ⟨cipher, [], []⟩

/-- Records a call. -/
def called (s : Scanner) (call : Except NetworkError (Option Bytes) × Bytes) : Scanner :=
  { s with buffer := call.2, outcomes := s.outcomes ++ [call.1] }

def perform (s : Scanner) : CodecStep → Scanner
  | .feed chunk => { s with buffer := s.buffer ++ chunk }
  | .encode frame => { s with buffer := s.buffer ++ (PacketCodec.start s.cipher).encode frame }
  | .decode => s.called (scan s.cipher s.buffer)
  | .decodeEnd => s.called (scanEnd s.cipher s.buffer)

def performAll (s : Scanner) (steps : List CodecStep) : Scanner := steps.foldl perform s

end Scanner

/-! ## Agreement -/

/-- The receiver as one that forgets how far it searched. -/
def Receiver.forget (r : Receiver) : Scanner := ⟨r.codec.cipher, r.buffer, r.outcomes⟩

variable {r : Receiver} {s : Scanner}

/-- A step keeps the memory sound, and shows nothing of it. -/
theorem Receiver.forget_perform (h : r.codec.IsSearched r.buffer) (step : CodecStep) :
    (r.perform step).codec.IsSearched (r.perform step).buffer ∧
      (r.perform step).forget = r.forget.perform step := by
  -- feeding and encoding only add to the buffer; the calls are those of a scan
  cases step with
  | feed chunk => exact ⟨h.append chunk, rfl⟩
  | encode frame =>
    refine ⟨h.append _, ?_⟩
    cases frame with
    | plain payload => rfl
    | encrypted payload => rfl
  | decode =>
    obtain ⟨c', hcall, hcipher, hsearched⟩ := h.decode
    simp only [perform, hcall]
    refine ⟨hsearched, ?_⟩
    simp only [forget, called, Scanner.perform, Scanner.called, hcipher]
  | decodeEnd =>
    obtain ⟨c', hcall, hcipher, hsearched⟩ := h.decodeEnd
    simp only [perform, hcall]
    refine ⟨hsearched, ?_⟩
    simp only [forget, called, Scanner.perform, Scanner.called, hcipher]

/-- So a whole run shows nothing of the memory: by induction along the steps, with its soundness
    as the invariant. -/
theorem Receiver.forget_performAll (h : r.codec.IsSearched r.buffer) (steps : List CodecStep) :
    (r.performAll steps).codec.IsSearched (r.performAll steps).buffer ∧
      (r.performAll steps).forget = r.forget.performAll steps := by
  induction steps generalizing r with
  | nil => exact ⟨h, rfl⟩
  | cons step steps ih =>
    obtain ⟨hsearched, hforget⟩ := Receiver.forget_perform h step
    obtain ⟨hlast, heq⟩ := ih hsearched
    refine ⟨hlast, ?_⟩
    rw [hforget] at heq
    exact heq

/-! ## Blocked buffers -/

/-- A frame that was found to be too long is still in the buffer. So the fault is found again at
    the next call, without being remembered. -/
def Scanner.RemembersOversize (s : Scanner) : Prop :=
  ∀ outcome ∈ s.outcomes, ReportsOversize outcome → IsOverfull s.buffer

/-- What an overfull buffer makes of a step: bytes may be added, and a call fails. -/
theorem Scanner.perform_of_isOverfull (h : IsOverfull s.buffer) (step : CodecStep) :
    s.buffer <+: (s.perform step).buffer ∧ IsOverfull (s.perform step).buffer ∧
      ∃ new, (s.perform step).outcomes = s.outcomes ++ new ∧
        new.length = [step].countP CodecStep.isCall ∧ ∀ outcome ∈ new, ReportsOversize outcome := by
  cases step with
  | feed chunk =>
    exact ⟨List.prefix_append _ _, h.append chunk, [], by simp [perform], rfl, nofun⟩
  | encode frame =>
    exact ⟨List.prefix_append _ _, h.append _, [], by simp [perform], rfl, nofun⟩
  | decode =>
    obtain ⟨hreport, hrest⟩ := h.scan s.cipher
    simp only [perform, called, hrest]
    exact ⟨List.prefix_refl _, h, [_], rfl, rfl, by simpa using hreport⟩
  | decodeEnd =>
    obtain ⟨hreport, hrest⟩ := h.scanEnd s.cipher
    simp only [perform, called, hrest]
    exact ⟨List.prefix_refl _, h, [_], rfl, rfl, by simpa using hreport⟩

/-- An overfull buffer stays overfull, so this holds of any number of steps. -/
theorem Scanner.performAll_of_isOverfull (h : IsOverfull s.buffer) (steps : List CodecStep) :
    s.buffer <+: (s.performAll steps).buffer ∧
      ∃ new, (s.performAll steps).outcomes = s.outcomes ++ new ∧
        new.length = steps.countP CodecStep.isCall ∧ ∀ outcome ∈ new, ReportsOversize outcome := by
  induction steps generalizing s with
  | nil => exact ⟨List.prefix_refl _, [], (List.append_nil _).symm, rfl, nofun⟩
  | cons step steps ih =>
    obtain ⟨hkept, hfull, new, hnew, hcount, hreports⟩ := Scanner.perform_of_isOverfull h step
    obtain ⟨hkept', new', hnew', hcount', hreports'⟩ := ih hfull
    -- the outcomes of the first step come before those of the others
    refine ⟨hkept.trans hkept', new ++ new', ?_, ?_, ?_⟩
    · rw [← List.append_assoc, ← hnew]
      exact hnew'
    · rw [List.length_append, hcount, hcount', ← List.countP_append]
      rfl
    · intro outcome hmem
      rcases List.mem_append.mp hmem with hold | hlast
      · exact hreports outcome hold
      · exact hreports' outcome hlast

/-- A step keeps it that an oversize frame that was reported still stands in the buffer: an old
    report by what the step makes of an overfull buffer, a new one by what the scan saw. -/
theorem Scanner.remembersOversize_perform (h : s.RemembersOversize) (step : CodecStep) :
    (s.perform step).RemembersOversize := by
  intro outcome hmem hreport
  by_cases hold : outcome ∈ s.outcomes
  · exact (Scanner.perform_of_isOverfull (h outcome hold hreport) step).2.1
  · -- the report is that of the step itself
    cases step with
    | feed chunk => exact (hold hmem).elim
    | encode frame => exact (hold hmem).elim
    | decode =>
      rcases List.mem_append.mp hmem with hmem | hmem
      · exact (hold hmem).elim
      · rw [List.mem_singleton.mp hmem] at hreport
        have hfull := isOverfull_of_scan s.cipher hreport
        simp only [perform, called, (hfull.scan s.cipher).2]
        exact hfull
    | decodeEnd =>
      rcases List.mem_append.mp hmem with hmem | hmem
      · exact (hold hmem).elim
      · rw [List.mem_singleton.mp hmem] at hreport
        have hfull := isOverfull_of_scanEnd hreport
        simp only [perform, called, (hfull.scanEnd s.cipher).2]
        exact hfull

theorem Scanner.remembersOversize_performAll (cipher : TransportCipher) (steps : List CodecStep) :
    ((start cipher).performAll steps).RemembersOversize := by
  refine List.foldlRecOn (motive := RemembersOversize) steps perform ?_ ?_
  · intro outcome hmem
    cases hmem
  · intro s h step _
    exact Scanner.remembersOversize_perform h step

/-! ## Main statement -/

/-- Whatever was done with a decoder and its buffer: what it has searched is part of the
    buffer and holds no mark, and the calls have had the outcomes, and left the buffer, that
    they would have had and left without memory. Once a call has reported a frame that is too
    long, bytes are only added to the buffer, and every call reports such a frame. -/
theorem performAll_agrees_with_scanner (cipher : TransportCipher) (steps : List CodecStep) :
    let r := (Receiver.start cipher).performAll steps
    (r.codec.searched ≤ r.buffer.length ∧ endMark ∉ r.buffer.take r.codec.searched) ∧
      r.forget = (Scanner.start cipher).performAll steps ∧
      ((∃ outcome ∈ r.outcomes, ReportsOversize outcome) →
        ∀ later, r.buffer <+: (r.performAll later).buffer ∧
          ∃ new, (r.performAll later).outcomes = r.outcomes ++ new ∧
            new.length = later.countP CodecStep.isCall ∧
            ∀ outcome ∈ new, ReportsOversize outcome) := by
  intro r
  obtain ⟨hsearched, hforget⟩ :=
    Receiver.forget_performAll (isSearched_start cipher []) (r := .start cipher) steps
  refine ⟨⟨hsearched.searched_le, hsearched.notMem⟩, hforget, ?_⟩
  rintro ⟨outcome, hmem, hreport⟩ later
  have hfull : IsOverfull r.forget.buffer := by
    have hremembers := Scanner.remembersOversize_performAll cipher steps
    have hsame : r.forget = (Scanner.start cipher).performAll steps := hforget
    rw [← hsame] at hremembers
    exact hremembers outcome hmem hreport
  -- what holds of the scanner behind the later steps holds of the receiver
  obtain ⟨-, hlater⟩ := Receiver.forget_performAll hsearched later
  have hblocked := Scanner.performAll_of_isOverfull hfull later
  rw [← hlater] at hblocked
  exact hblocked

/-- A frame too long by one byte, whose mark comes after the first report. -/
theorem performAll_agrees_with_scanner_small :
    let r := (Receiver.start ⟨id, .zero⟩).performAll [.feed (List.replicate 65536 65), .decode]
    (∃ outcome ∈ r.outcomes, ReportsOversize outcome) ∧
      r.buffer <+: (r.performAll [.feed [endMark], .decode, .decodeEnd]).buffer ∧
      ∃ new, (r.performAll [.feed [endMark], .decode, .decodeEnd]).outcomes = r.outcomes ++ new ∧
        new.length = 2 ∧ ∀ outcome ∈ new, ReportsOversize outcome := by
  intro r
  have hnone : endMark ∉ List.replicate 65536 (65 : UInt8) := by
    intro hmem
    exact absurd (List.eq_of_mem_replicate hmem) (by decide)
  have hlength : maxFrameLength ≤ (List.replicate 65536 (65 : UInt8)).length :=
    Nat.le_of_eq List.length_replicate.symm
  have hcall := (PacketCodec.start ⟨id, .zero⟩).decode_of_notMem hnone
  rw [if_pos hlength] at hcall
  have houtcomes : r.outcomes = [.error (.framing (.noEndMark maxFrameLength))] := by
    show ((PacketCodec.start ⟨id, .zero⟩).decode (List.replicate 65536 65)).1 :: [] = _
    rw [hcall]
  have hreported : ∃ outcome ∈ r.outcomes, ReportsOversize outcome := by
    rw [houtcomes]
    exact ⟨_, List.mem_singleton_self _, _, rfl, trivial⟩
  obtain ⟨-, -, hblocked⟩ := performAll_agrees_with_scanner ⟨id, .zero⟩
    [.feed (List.replicate 65536 65), .decode]
  exact ⟨hreported, hblocked hreported [.feed [endMark], .decode, .decodeEnd]⟩

end SoloMiner
