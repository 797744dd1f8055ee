import Mathlib.Data.List.Induction
import SoloMiner.Proofs.Session.Steps
import SoloMiner.Session.Network

/-! # Traces

    A trace is the list of the effects of a run, in order. Here are the views of a trace that
    statements about runs are made of, and the two inductions along a run: that of a link, and
    that of a network, whose connections come and go. -/

namespace SoloMiner

/-! ## Views -/

namespace Effect

def accepted? : Effect → Option SessionPacket
  | .accepted p => some p
  | _ => none

/-- A reply, and the request whose handler got it. -/
def answer? : Effect → Option (Expectation × Bytes)
  | .answered e reply => some (e, reply)
  | _ => none

end Effect

namespace Trace

/-- The packets that the queue took. -/
def accepted (trace : List Effect) : List SessionPacket := trace.filterMap Effect.accepted?

/-- The packets that were written. -/
def written (trace : List Effect) : List SessionPacket := trace.filterMap Effect.written?

/-- The replies that were handed over, each with the request it was handed to. -/
def answers (trace : List Effect) : List (Expectation × Bytes) := trace.filterMap Effect.answer?

def events (trace : List Effect) : List NetworkEvent := trace.filterMap Effect.event?

@[simp] theorem accepted_append (trace more : List Effect) :
    accepted (trace ++ more) = accepted trace ++ accepted more :=
  List.filterMap_append

@[simp] theorem written_append (trace more : List Effect) :
    written (trace ++ more) = written trace ++ written more :=
  List.filterMap_append

@[simp] theorem answers_append (trace more : List Effect) :
    answers (trace ++ more) = answers trace ++ answers more :=
  List.filterMap_append

@[simp] theorem events_append (trace more : List Effect) :
    events (trace ++ more) = events trace ++ events more :=
  List.filterMap_append

theorem notMem_of_written {trace : List Effect} (h : written trace = []) (p : SessionPacket)
    (bytes : Bytes) : .wrote p bytes ∉ trace := by
  intro hmem
  have hwritten : p ∈ written trace := List.mem_filterMap.mpr ⟨_, hmem, rfl⟩
  rw [h] at hwritten
  cases hwritten

theorem notMem_of_answers {trace : List Effect} (h : answers trace = []) (e : Expectation)
    (reply : Bytes) : .answered e reply ∉ trace := by
  intro hmem
  have hanswers : (e, reply) ∈ answers trace := List.mem_filterMap.mpr ⟨_, hmem, rfl⟩
  rw [h] at hanswers
  cases hanswers

/-! ### Offers -/

/-- What is seen of packets that are offered: those accepted are all or none of them, and nothing
    is written, answered or emitted. -/
theorem views_offers (isOpen : Bool) (ps : List SessionPacket) :
    accepted (ps.map (.ofOffer isOpen)) = (if isOpen then ps else []) ∧
      written (ps.map (.ofOffer isOpen)) = [] ∧ answers (ps.map (.ofOffer isOpen)) = [] ∧
      events (ps.map (.ofOffer isOpen)) = [] := by
  induction ps with
  | nil => cases isOpen <;> exact ⟨rfl, rfl, rfl, rfl⟩
  | cons p ps ih =>
    obtain ⟨haccepted, hwritten, hanswers, hevents⟩ := ih
    cases isOpen with
    | true => exact ⟨congrArg (p :: ·) haccepted, hwritten, hanswers, hevents⟩
    | false => exact ⟨haccepted, hwritten, hanswers, hevents⟩

theorem views_offer (isOpen : Bool) (p : SessionPacket) :
    accepted [.ofOffer isOpen p] = (if isOpen then [p] else []) ∧
      written [.ofOffer isOpen p] = [] ∧ answers [.ofOffer isOpen p] = [] ∧
      events [.ofOffer isOpen p] = [] :=
  views_offers isOpen [p]

@[simp] theorem accepted_offer (isOpen : Bool) (p : SessionPacket) :
    accepted [.ofOffer isOpen p] = if isOpen then [p] else [] :=
  (views_offer isOpen p).1

@[simp] theorem answers_offer (isOpen : Bool) (p : SessionPacket) :
    answers [.ofOffer isOpen p] = [] :=
  (views_offer isOpen p).2.2.1

@[simp] theorem events_offer (isOpen : Bool) (p : SessionPacket) :
    events [.ofOffer isOpen p] = [] :=
  (views_offer isOpen p).2.2.2

/-! ### Reactions -/

theorem answers_answered (e : Expectation) (reply : Bytes) (effects : List Effect) :
    answers (.answered e reply :: effects) = (e, reply) :: answers effects :=
  rfl

theorem views_emitted (es : List NetworkEvent) :
    accepted (es.map .emitted) = [] ∧ written (es.map .emitted) = [] ∧
      answers (es.map .emitted) = [] ∧ events (es.map .emitted) = es := by
  induction es with
  | nil => exact ⟨rfl, rfl, rfl, rfl⟩
  | cons e es ih =>
    obtain ⟨haccepted, hwritten, hanswers, hevents⟩ := ih
    exact ⟨haccepted, hwritten, hanswers, congrArg (e :: ·) hevents⟩

/-- What is seen of a reaction: its follow-up if the queue takes it, and its events. A job that
    was rejected is not seen. -/
theorem views_followEffects (c : Connection) (reaction : Reaction) :
    accepted (c.followEffects reaction) =
        (if c.queue.accepting then reaction.followUp.toList else []) ∧
      written (c.followEffects reaction) = [] ∧ answers (c.followEffects reaction) = [] ∧
      events (c.followEffects reaction) = reaction.events := by
  obtain ⟨haccepted, hwritten, hanswers, hevents⟩ := views_emitted reaction.events
  obtain ⟨haccepted', hwritten', hanswers', hevents'⟩ :=
    views_offers c.queue.accepting reaction.followUp.toList
  unfold Connection.followEffects
  rw [accepted_append, written_append, answers_append, events_append, accepted_append,
    written_append, answers_append, events_append, haccepted, hwritten, hanswers, hevents,
    haccepted', hwritten', hanswers', hevents']
  -- that a method made no job is none of the four
  cases reaction.rejected with
  | none => simp [accepted, written, answers, events]
  | some fault =>
    simp [accepted, written, answers, events, Effect.accepted?, Effect.written?, Effect.answer?,
      Effect.event?]

/-- What is seen when a reply is handed over. -/
@[simp] theorem accepted_answer (c : Connection) (e : Expectation) (reply : Bytes)
    (reaction : Reaction) : accepted (.answered e reply :: c.followEffects reaction) =
      if c.queue.accepting then reaction.followUp.toList else [] :=
  (views_followEffects c reaction).1

@[simp] theorem answers_answer (c : Connection) (e : Expectation) (reply : Bytes)
    (reaction : Reaction) :
    answers (.answered e reply :: c.followEffects reaction) = [(e, reply)] := by
  rw [answers_answered, (views_followEffects c reaction).2.2.1]

@[simp] theorem events_answer (c : Connection) (e : Expectation) (reply : Bytes)
    (reaction : Reaction) :
    events (.answered e reply :: c.followEffects reaction) = reaction.events :=
  (views_followEffects c reaction).2.2.2

/-! ### What stands in a trace -/

/-- Every effect of the trace stands in a relation to those before it. Shown step by step, this
    says of a whole run what was known when. -/
def Along (Q : List Effect → Effect → Prop) (trace : List Effect) : Prop :=
  ∀ before effect after, trace = before ++ effect :: after → Q before effect

variable {Q : List Effect → Effect → Prop}

theorem along_nil : Along Q [] := by
  intro before effect after h
  simp at h

theorem Along.append {trace effects : List Effect} (h : Along Q trace)
    (hnew : ∀ before effect after, effects = before ++ effect :: after →
      Q (trace ++ before) effect) : Along Q (trace ++ effects) := by
  intro before effect after hsplit
  -- the effect is one of the new ones, or stands in the old trace
  rcases List.append_eq_append_iff.mp hsplit with ⟨gap, hbefore, heffects⟩ | ⟨gap, htrace, hrest⟩
  · rw [hbefore]
    exact hnew gap effect after heffects
  · cases gap with
    | nil =>
      rw [List.append_nil] at htrace
      have hfirst := hnew [] effect after (by simpa using hrest.symm)
      rwa [List.append_nil, htrace] at hfirst
    | cons x gap =>
      rw [List.cons_append, List.cons.injEq] at hrest
      obtain ⟨rfl, -⟩ := hrest
      exact h before effect gap htrace

theorem Along.concat {trace : List Effect} {effect : Effect} (h : Along Q trace)
    (hnew : Q trace effect) : Along Q (trace ++ [effect]) := by
  refine h.append fun before effect' after hsplit => ?_
  cases before with
  | nil =>
    rw [List.nil_append, List.cons.injEq] at hsplit
    rw [List.append_nil, ← hsplit.1]
    exact hnew
  | cons x before => simp at hsplit

/-- Effects that stand in the relation to everything. -/
theorem Along.append_of_forall {trace effects : List Effect} (h : Along Q trace)
    (hnew : ∀ effect ∈ effects, ∀ before, Q before effect) : Along Q (trace ++ effects) := by
  refine h.append fun before effect after hsplit => hnew effect ?_ _
  rw [hsplit]
  simp

end Trace

/-! ## Runs of a link -/

namespace Link

theorem exists_of_isUp {l : Link} (h : l.isUp = true) : ∃ c, l = .up c := by
  cases l with
  | up c => exact ⟨c, rfl⟩
  | down last => cases h

theorem exists_of_not_isUp {l : Link} (h : l.isUp = false) : ∃ last, l = .down last := by
  cases l with
  | up c => cases h
  | down last => exact ⟨last, rfl⟩

/-- What an action can do to whatever there is. -/
inductive StepsTo : Link → Connection.Action → Link → List Effect → Prop where
  | refuse (last : Option String) (o : Offer) :
      StepsTo (.down last) (.send o) (.down last) [.refused o.packet]
  | rest (last : Option String) (a : Connection.Action) : StepsTo (.down last) a (.down last) []
  | act {c : Connection} {a : Connection.Action} {link : Link} {effects : List Effect}
      (step : c.StepsTo a link effects) : StepsTo (.up c) a link effects

/-- Without a connection a packet is turned away, and nothing else has any effect. -/
theorem stepsTo_step (l : Link) (a : Connection.Action) : l.StepsTo a (l.step a).1 (l.step a).2 := by
  cases l with
  | up c => exact .act (c.stepsTo_step a)
  | down last =>
    cases a with
    | send o => exact .refuse last o
    | disconnect => exact .rest last _
    | occur o => exact .rest last _

/-- A step that leaves no connection takes no packet and writes none. -/
theorem StepsTo.views_of_down {l : Link} {a : Connection.Action} {last : Option String}
    {effects : List Effect} (h : l.StepsTo a (.down last) effects) :
    Trace.accepted effects = [] ∧ Trace.written effects = [] := by
  cases h with
  | refuse | rest => exact ⟨rfl, rfl⟩
  | act step =>
    cases step with
    | reject | fail | complete => exact ⟨rfl, rfl⟩

/-- A run is put together from its parts. -/
theorem run_append (l : Link) (first rest : List Connection.Action) :
    l.run (first ++ rest) =
      (((l.run first).1.run rest).1, (l.run first).2 ++ ((l.run first).1.run rest).2) := by
  induction first generalizing l with
  | nil => simp [run]
  | cons a first ih => simp [run, ih]

theorem run_concat (l : Link) (actions : List Connection.Action) (a : Connection.Action) :
    l.run (actions ++ [a]) =
      (((l.run actions).1.step a).1, (l.run actions).2 ++ ((l.run actions).1.step a).2) := by
  rw [run_append]
  simp [run]

/-- What holds at the start of a run and is kept by every step holds at its end. -/
theorem run_concat_induction {P : List Connection.Action → List Effect → Link → Prop} {l : Link}
    (hstart : P [] [] l)
    (hstep : ∀ {actions : List Connection.Action} {trace effects : List Effect} {l₁ l₂ : Link}
      {a : Connection.Action}, l.run actions = (l₁, trace) → P actions trace l₁ →
        l₁.StepsTo a l₂ effects → P (actions ++ [a]) (trace ++ effects) l₂)
    (actions : List Connection.Action) : P actions (l.run actions).2 (l.run actions).1 := by
  induction actions using List.reverseRecOn with
  | nil => exact hstart
  | append_singleton actions a ih =>
    rw [run_concat]
    exact hstep rfl ih ((l.run actions).1.stepsTo_step a)

end Link

/-! ## Runs of a network -/

namespace Network

/-! ### Attempts -/

section attempts

variable {n : Network} {last : Option String}

theorem openLink_of_up {c : Connection} (up : n.link = .up c)
    (attempt : Except NetworkError Bytes) : n.openLink attempt = (.ok (), n, []) := by
  rw [openLink, up]

theorem openLink_of_failed {attempt : Except NetworkError Bytes} {e : NetworkError}
    (down : n.link = .down last) (failed : cipherOf attempt = .error e) :
    n.openLink attempt = (.error e, n, [.emitted (.disconnected e.reason)]) := by
  simp only [openLink, down, failed]

theorem openLink_of_made {attempt : Except NetworkError Bytes} {cipher : TransportCipher}
    {certificate : Bytes} (down : n.link = .down last)
    (made : cipherOf attempt = .ok (cipher, certificate)) :
    n.openLink attempt =
      (.ok (), { n with link := .up (.start n.settings cipher certificate last) },
        .opened :: (Connection.handshake n.settings certificate).map .accepted) := by
  simp only [openLink, down, made]

end attempts

/-! ### Turns -/

theorem isFree_iff {n : Network} :
    n.isFree = true ↔ n.waiting = [] ∧ n.link.isEnding = false := by
  rw [isFree, Bool.and_eq_true, List.isEmpty_iff, Bool.not_eq_true']

/-- The call that an action carries out: one that is made when nothing stands in its way, or the
    one that has waited longest. -/
def turn? (n : Network) : Action → Option Call
  | .call c => if n.isFree then some c else none
  | .resume => if n.link.isEnding then none else n.waiting.head?
  | .send _ | .occur _ => none

/-- Does the action try to open a connection? -/
def attempts (n : Network) (a : Action) : Bool :=
  match n.turn? a with
  | some (.connect _) => !n.link.isUp
  | _ => false

variable {n : Network} {a : Action}

theorem attempts_of_turn {attempt : Except NetworkError Bytes}
    (h : n.turn? a = some (.connect attempt)) : n.attempts a = !n.link.isUp := by
  rw [attempts, h]

/-- A call has its turn when it is made, if none waits, or by `resume`, if it is the first of those
    that wait. In either case no connection is being ended. -/
theorem cases_of_turn {c : Call} (h : n.turn? a = some c) :
    n.link.isEnding = false ∧
      ((a = .call c ∧ n.waiting = []) ∨ (a = .resume ∧ ∃ rest, n.waiting = c :: rest)) := by
  cases a with
  | send o | occur o => cases h
  | call c' =>
    obtain ⟨hfree, hcall⟩ := Option.ite_none_right_eq_some.mp h
    obtain ⟨hnone, hending⟩ := isFree_iff.mp hfree
    rw [Option.some.inj hcall]
    exact ⟨hending, Or.inl ⟨rfl, hnone⟩⟩
  | resume =>
    obtain ⟨hending, hfirst⟩ := Option.ite_none_left_eq_some.mp h
    exact ⟨Bool.eq_false_iff.mpr hending, Or.inr ⟨rfl, List.head?_eq_some_iff.mp hfirst⟩⟩

/-- A call that is carried out is no longer among those that wait. -/
theorem step_of_turn {c : Call} (h : n.turn? a = some c) :
    n.step a = { n with waiting := n.waiting.tail }.carryOut c := by
  obtain ⟨settings, link, waiting⟩ := n
  obtain ⟨hending, ⟨rfl, hnone⟩ | ⟨rfl, rest, hwaiting⟩⟩ := cases_of_turn h
  · -- nothing waited, so nothing is taken away
    cases hnone
    exact if_pos (isFree_iff.mpr ⟨rfl, hending⟩)
  · cases hwaiting
    exact if_neg (Bool.eq_false_iff.mp hending)

/-- A call that is not carried out joins those that wait. -/
theorem step_call_of_not_free (h : n.isFree = false) (c : Call) :
    n.step (.call c) = (n.defer c, []) := by
  show n.call c = _
  rw [call, h, if_neg Bool.false_ne_true]

/-- Without a turn for any of those that wait, nothing happens. -/
theorem step_resume_of_no_turn (h : n.turn? .resume = none) : n.step .resume = (n, []) := by
  show n.resume = (n, [])
  unfold resume
  split
  · rfl
  · next c rest hwaiting =>
    by_cases hending : n.link.isEnding = true
    · rw [if_pos hending]
    · rw [turn?, if_neg hending, hwaiting] at h
      cases h

/-! ### Steps -/

/-- What an action can do to a network. -/
inductive StepsTo (n : Network) (a : Action) : Link → List Effect → Prop where
  /-- A call has to wait, or finds nothing to do. -/
  | keep (unattempted : n.attempts a = false) : StepsTo n a n.link []
  | fail {attempt : Except NetworkError Bytes} {last : Option String} {e : NetworkError}
      (turn : n.turn? a = some (.connect attempt)) (down : n.link = .down last)
      (failed : cipherOf attempt = .error e) :
      StepsTo n a (.down last) [.emitted (.disconnected e.reason)]
  | connect {attempt : Except NetworkError Bytes} {last : Option String} {cipher : TransportCipher}
      {certificate : Bytes} (turn : n.turn? a = some (.connect attempt))
      (down : n.link = .down last) (made : cipherOf attempt = .ok (cipher, certificate)) :
      StepsTo n a (.up (.start n.settings cipher certificate last))
        (.opened :: (Connection.handshake n.settings certificate).map .accepted)
  /-- The connection, if there is one, is told of something, perhaps of the wish to end it. -/
  | pass {b : Connection.Action} {link : Link} {effects : List Effect}
      (unattempted : n.attempts a = false) (step : n.link.StepsTo b link effects) :
      StepsTo n a link effects

/-- What a call that is carried out can do: to disconnect is passed on to the link, and to
    connect leaves the link alone, fails, or opens a connection. -/
theorem stepsTo_of_turn {c : Call} (h : n.turn? a = some c) :
    n.StepsTo a (n.step a).1.link (n.step a).2 := by
  rw [step_of_turn h]
  cases c with
  | disconnect => exact .pass (by rw [attempts, h]) (n.link.stepsTo_step .disconnect)
  | connect attempt =>
    -- the link is that of the network in which the call no longer waits
    let m : Network := { n with waiting := n.waiting.tail }
    show n.StepsTo a (m.openLink attempt).2.1.link (m.openLink attempt).2.2
    cases hlink : n.link with
    | up c =>
      have hup : m.link = .up c := hlink
      rw [openLink_of_up hup]
      exact .keep (by rw [attempts_of_turn h, hlink]; rfl)
    | down last =>
      have hdown : m.link = .down last := hlink
      cases hcipher : cipherOf attempt with
      | error e =>
        rw [openLink_of_failed hdown hcipher]
        show n.StepsTo a m.link _
        rw [hdown]
        exact .fail h hlink hcipher
      | ok made =>
        rw [openLink_of_made hdown hcipher]
        exact .connect h hlink hcipher

/-- An action whose call has its turn carries it out. A call without a turn is put off, and all
    else goes to the link. -/
theorem stepsTo_step (n : Network) (a : Action) : n.StepsTo a (n.step a).1.link (n.step a).2 := by
  cases hturn : n.turn? a with
  | some c => exact stepsTo_of_turn hturn
  | none =>
    have hattempts : n.attempts a = false := by rw [attempts, hturn]
    cases a with
    | send o => exact .pass hattempts (n.link.stepsTo_step (.send o))
    | occur o => exact .pass hattempts (n.link.stepsTo_step (.occur o))
    | resume =>
      rw [step_resume_of_no_turn hturn]
      exact .keep hattempts
    | call c =>
      cases hfree : n.isFree with
      | false =>
        rw [step_call_of_not_free hfree]
        exact .keep hattempts
      | true =>
        rw [turn?, if_pos hfree] at hturn
        cases hturn

/-! ### Runs -/

theorem run_append (n : Network) (first rest : List Action) :
    n.run (first ++ rest) =
      (((n.run first).1.run rest).1, (n.run first).2 ++ ((n.run first).1.run rest).2) := by
  induction first generalizing n with
  | nil => simp [run]
  | cons a first ih => simp [run, ih]

theorem run_concat (n : Network) (actions : List Action) (a : Action) :
    n.run (actions ++ [a]) =
      (((n.run actions).1.step a).1, (n.run actions).2 ++ ((n.run actions).1.step a).2) := by
  rw [run_append]
  simp [run]

/-- Between two calls, a network runs as its link does. -/
theorem run_occur (n : Network) (occurrences : List Connection.Occurrence) :
    n.run (occurrences.map .occur) =
      ({ n with link := (n.link.run (occurrences.map .occur)).1 },
        (n.link.run (occurrences.map .occur)).2) := by
  induction occurrences generalizing n with
  | nil => rfl
  | cons o rest ih => simp [run, Link.run, step, pass, ih]

/-- Every effect in the trace of a run comes from one of its steps. -/
theorem exists_step_of_run {n : Network} {actions : List Action} {before after : List Effect}
    {effect : Effect} (h : (n.run actions).2 = before ++ effect :: after) :
    ∃ first a rest left right, actions = first ++ a :: rest ∧
      ((n.run first).1.step a).2 = left ++ effect :: right ∧
      before = (n.run first).2 ++ left ∧
      after = right ++ (((n.run first).1.step a).1.run rest).2 := by
  induction actions generalizing n before with
  | nil => simp [run] at h
  | cons a rest ih =>
    have hrun : (n.step a).2 ++ ((n.step a).1.run rest).2 = before ++ effect :: after := h
    -- the effect comes from a later step, or from this one
    rcases List.append_eq_append_iff.mp hrun with ⟨gap, hbefore, hlater⟩ | ⟨gap, hnow, hafter⟩
    · obtain ⟨first, a', rest', left, right, rfl, heffects, rfl, rfl⟩ := ih hlater
      refine ⟨a :: first, a', rest', left, right, rfl, heffects, ?_, rfl⟩
      rw [hbefore, run, List.append_assoc]
    · cases gap with
      | nil =>
        have hlater : ((n.step a).1.run rest).2 = [] ++ effect :: after := hafter.symm
        obtain ⟨first, a', rest', left, right, rfl, heffects, hleft, rfl⟩ := ih hlater
        refine ⟨a :: first, a', rest', left, right, rfl, heffects, ?_, rfl⟩
        rw [run, List.append_assoc, ← hleft, hnow, List.append_nil, List.append_nil]
      | cons x gap =>
        rw [List.cons_append, List.cons.injEq] at hafter
        obtain ⟨rfl, rfl⟩ := hafter
        exact ⟨[], a, rest, before, gap, rfl, hnow, rfl, rfl⟩

/-- What holds at the start of a run and is kept by every step holds at its end. -/
theorem run_concat_induction {P : List Effect → Link → Prop} {n : Network} (hstart : P [] n.link)
    (hstep : ∀ {trace effects : List Effect} {n : Network} {l : Link} {a : Action},
      P trace n.link → n.StepsTo a l effects → P (trace ++ effects) l)
    (actions : List Action) : P (n.run actions).2 (n.run actions).1.link := by
  induction actions using List.reverseRecOn with
  | nil => exact hstart
  | append_singleton actions a ih =>
    rw [run_concat]
    exact hstep ih ((n.run actions).1.stepsTo_step a)

end Network
end SoloMiner
