import SoloMiner.Proofs.Session.Traces

/-! # Calls

    Calls to connect and to disconnect are carried out one at a time, in the order in which they
    were made, and none is lost. So a call that is carried out never finds a connection that is
    being ended: a call to connect leaves the connection there is alone, or makes an attempt. -/

namespace SoloMiner

/-! ## Connections that are being ended -/

namespace Link

/-- But for a connection that is being ended, one that is up takes packets. -/
def TakesPackets (l : Link) : Prop := l.isEnding = false → l.isOpen = l.isUp

/-- Only at its owner's wish does a connection close its queue and stay up. -/
theorem StepsTo.takesPackets {l l' : Link} {a : Connection.Action} {effects : List Effect}
    (h : l.StepsTo a l' effects) (hl : l.TakesPackets) : l'.TakesPackets := by
  intro hending
  cases l' with
  | down last => rfl
  | up c' =>
    cases h with
    | @act c _ _ _ step =>
      cases step with
      | arrive bytes =>
        rw [Connection.arrive_eq] at hending ⊢
        exact hl hending
      | hangUp | withstand | wait | write => exact hl hending
      | disconnect => cases hending
      | send o =>
        show (Connection.offer _ o.packet).2.queue.accepting = true
        rw [Connection.accepting_offer]
        exact hl hending
      | close idle flush =>
        -- the queue is closed because the owner has asked for the end
        have hclosing : c.ending = true := (Bool.and_eq_true_iff.mp flush).1
        have hstays : c.ending = false := hending
        rw [hclosing] at hstays
        cases hstays
      | answer awaiting replied reacted =>
        rw [Connection.follow_eq] at hending
        show (Connection.follow _ _).queue.accepting = true
        rw [Connection.accepting_follow]
        exact hl hending

end Link

namespace Network

variable {n : Network} {a : Action}

/-! ## Order -/

/-- The call that an action makes. -/
def Action.call? : Action → Option Call
  | .call c => some c
  | .send _ | .occur _ | .resume => none

/-- The calls made in the course of a run, the earliest first. -/
def calls (actions : List Action) : List Call := actions.filterMap Action.call?

/-- The calls carried out in the course of a run, the earliest first. A call that has to wait is
    among them when its turn has come, and not before. -/
def carriedOut (n : Network) : List Action → List Call
  | [] => []
  | a :: rest => (n.turn? a).toList ++ (n.step a).1.carriedOut rest

/-- A call that is carried out makes no other wait. -/
theorem waiting_carryOut (n : Network) (c : Call) : (n.carryOut c).1.waiting = n.waiting := by
  cases c with
  | disconnect => rfl
  | connect attempt =>
    show (n.openLink attempt).2.1.waiting = n.waiting
    unfold openLink
    split
    · rfl
    · split <;> rfl

/-- The turn goes to the call that is made if none waits, and otherwise to the first of those
    that wait. -/
theorem waiting_of_turn {c : Call} (h : n.turn? a = some c) :
    n.waiting ++ a.call?.toList = c :: n.waiting.tail := by
  obtain ⟨-, ⟨rfl, hnone⟩ | ⟨rfl, rest, hwaiting⟩⟩ := cases_of_turn h
  · rw [hnone]
    rfl
  · rw [hwaiting]
    exact List.append_nil _

/-- In one step the calls move up by those that are carried out. -/
theorem waiting_step (n : Network) (a : Action) :
    n.waiting ++ a.call?.toList = (n.turn? a).toList ++ (n.step a).1.waiting := by
  cases hturn : n.turn? a with
  | some c =>
    rw [waiting_of_turn hturn, step_of_turn hturn, waiting_carryOut]
    rfl
  | none =>
    -- whatever is called for joins those that wait, and nothing else changes them
    cases a with
    | send o | occur o => exact List.append_nil _
    | resume =>
      rw [step_resume_of_no_turn hturn]
      exact List.append_nil _
    | call c =>
      cases hfree : n.isFree with
      | true =>
        rw [turn?, if_pos hfree] at hturn
        cases hturn
      | false =>
        rw [step_call_of_not_free hfree]
        rfl

/-- In a whole run the calls carried out are those that waited and those that were made, in that
    order, up to the ones that still wait. -/
theorem waiting_run (n : Network) (actions : List Action) :
    n.waiting ++ calls actions = n.carriedOut actions ++ (n.run actions).1.waiting := by
  induction actions generalizing n with
  | nil => exact List.append_nil _
  | cons a rest ih =>
    have hcalls : calls (a :: rest) = a.call?.toList ++ calls rest := by
      rw [calls, List.filterMap_cons]
      cases a.call? <;> rfl
    have hrest := ih (n.step a).1
    calc n.waiting ++ calls (a :: rest)
        = n.waiting ++ a.call?.toList ++ calls rest := by rw [hcalls, List.append_assoc]
      _ = (n.turn? a).toList ++ ((n.step a).1.waiting ++ calls rest) := by
        rw [waiting_step, List.append_assoc]
      _ = (n.turn? a).toList ++
          ((n.step a).1.carriedOut rest ++ ((n.step a).1.run rest).1.waiting) := by rw [hrest]
      _ = n.carriedOut (a :: rest) ++ (n.run (a :: rest)).1.waiting := by
        rw [carriedOut, run, List.append_assoc]

/-- At any time of a run, a connection that is up and not being ended takes packets. -/
theorem takesPackets_run (settings : NetworkSettings) (actions : List Action) :
    ((Network.start settings).run actions).1.link.TakesPackets := by
  refine run_concat_induction (P := fun _ l => l.TakesPackets) (fun _ => rfl) ?_ actions
  intro trace effects n l a hn hstep
  cases hstep with
  | keep => exact hn
  | fail | connect => exact fun _ => rfl
  | pass unattempted step => exact step.takesPackets hn

/-! ## What a call does in its turn -/

/-- What stands in the way of a call is a connection that is being ended, or an earlier call
    whose turn it is. -/
theorem exists_turn_of_not_free (h : n.isFree = false) :
    n.link.isEnding = true ∨ ∃ c, n.turn? .resume = some c ∧ n.waiting.head? = some c := by
  cases hending : n.link.isEnding with
  | true => exact Or.inl rfl
  | false =>
    refine Or.inr ?_
    cases hwaiting : n.waiting with
    | nil =>
      rw [isFree_iff.mpr ⟨hwaiting, hending⟩] at h
      cases h
    | cons c rest => exact ⟨c, by rw [turn?, hending, hwaiting]; rfl, rfl⟩

/-- What comes of an attempt to connect: a connection that starts with its handshake, or the
    report of why there is none. -/
def Attempted (n : Network) (attempt : Except NetworkError Bytes)
    (outcome : Network × List Effect) : Prop :=
  match cipherOf attempt with
  | .ok (cipher, certificate) =>
    outcome.1.link = .up (.start n.settings cipher certificate n.lastIndication) ∧
      outcome.2 = .opened :: (Connection.handshake n.settings certificate).map .accepted
  | .error e => outcome.1.link = n.link ∧ outcome.2 = [.emitted (.disconnected e.reason)]

theorem attempted_openLink {last : Option String} (down : n.link = .down last)
    (attempt : Except NetworkError Bytes) : n.Attempted attempt (n.openLink attempt).2 := by
  unfold Attempted
  cases hcipher : cipherOf attempt with
  | error e =>
    rw [openLink_of_failed down hcipher]
    exact ⟨rfl, rfl⟩
  | ok made =>
    rw [openLink_of_made down hcipher, lastIndication, down]
    exact ⟨rfl, rfl⟩

/-- To connect without a connection is to make an attempt. -/
theorem attempted_of_turn {attempt : Except NetworkError Bytes} {last : Option String}
    (h : n.turn? a = some (.connect attempt)) (down : n.link = .down last) :
    n.Attempted attempt (n.step a) := by
  rw [step_of_turn h]
  exact attempted_openLink (n := { n with waiting := n.waiting.tail }) down attempt

/-- To connect while there is a connection does nothing. -/
theorem step_connect_of_up {attempt : Except NetworkError Bytes} {c : Connection}
    (h : n.turn? a = some (.connect attempt)) (up : n.link = .up c) :
    (n.step a).1.link = n.link ∧ (n.step a).2 = [] := by
  have hopen := openLink_of_up (n := { n with waiting := n.waiting.tail }) up attempt
  rw [step_of_turn h, carryOut, hopen]
  exact ⟨rfl, rfl⟩

/-- To disconnect without a connection does nothing. -/
theorem step_disconnect_of_down {last : Option String} (h : n.turn? a = some .disconnect)
    (down : n.link = .down last) : (n.step a).1.link = n.link ∧ (n.step a).2 = [] := by
  rw [step_of_turn h, carryOut, pass, down]
  exact ⟨rfl, rfl⟩

/-! ## Answers -/

/-- A call to connect that need not wait is carried out. -/
theorem connect_of_free (h : n.isFree = true) (attempt : Except NetworkError Bytes) :
    n.connect attempt = (some (n.openLink attempt).1, (n.openLink attempt).2) := by
  rw [connect, call, if_pos h, if_pos h, carryOut]

/-- To connect while connected returns at once, and does nothing. -/
theorem connect_of_connected (hfree : n.isFree = true) (hconnected : n.isConnected = true)
    (attempt : Except NetworkError Bytes) : n.connect attempt = (some (.ok ()), n, []) := by
  cases hlink : n.link with
  | down last =>
    rw [isConnected, hlink] at hconnected
    cases hconnected
  | up c => rw [connect_of_free hfree, openLink_of_up hlink]

/-- To disconnect while not connected returns at once, and does nothing. -/
theorem disconnect_of_down (hfree : n.isFree = true) {last : Option String}
    (down : n.link = .down last) : n.disconnect = (false, n) := by
  rw [disconnect, call, if_pos hfree, hfree, carryOut, pass, down]
  obtain ⟨settings, link, waiting⟩ := n
  cases down
  rfl

/-- A call that has to wait does nothing else. -/
theorem connect_of_not_free (h : n.isFree = false) (attempt : Except NetworkError Bytes) :
    n.connect attempt = (none, n.defer (.connect attempt), []) := by
  rw [connect, call, h, if_neg Bool.false_ne_true, if_neg Bool.false_ne_true]

theorem disconnect_of_not_free (h : n.isFree = false) :
    n.disconnect = (true, n.defer .disconnect) := by
  rw [disconnect, call, h, if_neg Bool.false_ne_true]
  rfl

/-- To disconnect opens no connection, whether it has to wait or not. -/
theorem link_disconnect_of_down {last : Option String} (down : n.link = .down last) :
    n.disconnect.2.link = .down last := by
  cases hfree : n.isFree with
  | true => rw [disconnect_of_down hfree down, down]
  | false =>
    rw [disconnect_of_not_free hfree]
    exact down

end Network
end SoloMiner
