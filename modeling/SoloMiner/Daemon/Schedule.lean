import SoloMiner.Daemon.Loop

/-! # Schedule

    A daemon left to itself takes up all events at once. While time passes, every timer goes off
    at its time, and of timers due at the same time the counters are read first, then the speed
    is printed, then a connection is opened. On a clock that waits for the daemon the connection,
    which is its own business, comes first, and so it does when the clock jumps: then timers go
    off late, at the time the clock has jumped to. -/

namespace SoloMiner.Daemon

inductive Timer where
  | tick
  | print
  | reconnect
  deriving DecidableEq, Repr

namespace Timer

/-- When a timer goes off. -/
def deadline? (t : Timer) (d : Daemon) : Option Duration :=
  match t with
  | .tick => some d.tickAt
  | .print => d.nextPrint?
  | .reconnect => d.reconnectAt

/-- What a timer does when it goes off. -/
def action (t : Timer) (attempt : Except NetworkError Bytes) : Action :=
  match t with
  | .tick => .tick 0
  | .print => .print
  | .reconnect => .reconnect attempt

/-- The first of the timers that go off up to `limit`, with its time. Of two that go off at one
    time the one in front counts. -/
def next? (d : Daemon) (limit : Duration) : List Timer → Option (Timer × Duration)
  | [] => none
  | t :: rest =>
    match (t.deadline? d).filter (· ≤ limit), next? d limit rest with
    | some time, some (u, other) => if time ≤ other then some (t, time) else some (u, other)
    | some time, none => some (t, time)
    | none, later => later

/-- Is a timer due? -/
def isDue (d : Daemon) (t : Timer) : Bool := (t.deadline? d).any (· ≤ d.now)

/-- Is `t` due no later than `u`? -/
def isBefore (d : Daemon) (t u : Timer) : Bool :=
  match t.deadline? d, u.deadline? d with
  | some time, some other => decide (time ≤ other)
  | _, _ => true

/-- The timers in the order in which they go off after a jump: the connection, then the one
    that is due longest. -/
def afterJump (d : Daemon) : List Timer :=
  .reconnect :: if isBefore d .tick .print then [.tick, .print] else [.print, .tick]

end Timer

/-- Takes up all events that wait. -/
def settle (d : Daemon) : Daemon × List LogRecord :=
  d.run (d.pending.map fun _ => .deliver)

/-! ## Time that passes -/

/-- Lets timers go off up to `limit`, at most `fires` times. Of timers due at the same time the
    first of `timers` goes off first. -/
def passUntil (attempt : Except NetworkError Bytes) (timers : List Timer) (limit : Duration) :
    Nat → Daemon → Daemon × List LogRecord
  | 0, d => (d, [])
  | fires + 1, d =>
    let (d, records) := d.settle
    if d.isRunning then
      match Timer.next? d limit timers with
      | none => ({ d with now := if d.now ≤ limit then limit else d.now }, records)
      | some (timer, time) =>
        let d := { d with now := if d.now ≤ time then time else d.now }
        let (d, fired) := d.step (timer.action attempt)
        let (d, more) := passUntil attempt timers limit fires d
        (d, records ++ fired ++ more)
    else (d, records)

/-- How often timers can go off in some time: no timer more than once a second. -/
def maxFires (time : Duration) : Nat := 4 * (time.nanoseconds / 1000000000 + 4)

/-- Lets time pass while every attempt to connect turns out the same. -/
def pass (d : Daemon) (attempt : Except NetworkError Bytes) (time : Duration) :
    Daemon × List LogRecord :=
  passUntil attempt [.tick, .print, .reconnect] (d.now + time) (maxFires time) d

/-- Lets time pass on a clock that stands still while anything can be done. -/
def passIdle (d : Daemon) (attempt : Except NetworkError Bytes) (time : Duration) :
    Daemon × List LogRecord :=
  passUntil attempt [.reconnect, .tick, .print] (d.now + time) (maxFires time) d

/-! ## Jumps -/

/-- How often a timer goes off before the others get their turn. -/
def turnLength : Nat := 128

/-- Lets a timer go off until it is not due any more, at most `fires` times. A daemon that stops
    running lets nothing more go off. -/
def catchUp (attempt : Except NetworkError Bytes) (t : Timer) :
    Nat → Daemon → Daemon × List LogRecord
  | 0, d => (d, [])
  | fires + 1, d =>
    if d.isRunning && Timer.isDue d t then
      let (d, fired) := d.step (t.action attempt)
      let (d, settled) := d.settle
      let (d, more) := catchUp attempt t fires d
      (d, fired ++ settled ++ more)
    else (d, [])

/-- Gives each timer a turn. -/
def takeTurns (attempt : Except NetworkError Bytes) :
    List Timer → Daemon → Daemon × List LogRecord
  | [], d => (d, [])
  | t :: rest, d =>
    let (d, fired) := d.catchUp attempt t turnLength
    let (d, more) := takeTurns attempt rest d
    (d, fired ++ more)

/-- Gives timers turns until none of them is due, at most `rounds` times. -/
def catchUpAll (attempt : Except NetworkError Bytes) (timers : List Timer) :
    Nat → Daemon → Daemon × List LogRecord
  | 0, d => (d, [])
  | rounds + 1, d =>
    if d.isRunning && timers.any (Timer.isDue d) then
      let (d, fired) := d.takeTurns attempt timers
      let (d, more) := catchUpAll attempt timers rounds d
      (d, fired ++ more)
    else (d, [])

/-- The clock jumps. A timer that has missed its time more than once goes off as often; an
    attempt to connect has its next time counted from now, so that there is at most one. No
    timer misses its time more than once a second. -/
def jump (d : Daemon) (attempt : Except NetworkError Bytes) (time : Duration) :
    Daemon × List LogRecord :=
  let (d, settled) := d.settle
  let (d, _) := d.step (.wait time)
  let rounds := time.nanoseconds / 1000000000 / turnLength + 1
  let (d, fired) := d.catchUpAll attempt (Timer.afterJump d) rounds
  (d, settled ++ fired)

end SoloMiner.Daemon
