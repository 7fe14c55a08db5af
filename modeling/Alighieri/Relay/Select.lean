import Alighieri.Lib.Transition

/-!
# The select loop of `relay_both_until` (relay.rs:381-466)

One turn of the loop is one completed `tokio::select!`. The branches are polled
in the order the source writes them (`biased`), so a turn is described by what
each poll would answer: `none` is `Poll::Pending`. Durations are milliseconds.
-/

namespace Alighieri.Relay

structure IoError where
  message : List Char
  deriving Repr, DecidableEq

abbrev IoResult := Except IoError Unit

/- relay.rs:379 -/
def postCloseDrainTimeout : ℕ := 10000

/- `idle_tick_period` (relay.rs:871): a quarter of the limit, between 250 ms and 15 s. -/
def idleTickPeriod (idle : ℕ) : ℕ := max 250 (min (idle / 4) 15000)

/- The locals of `relay_both_until`. `ticker` holds the period of the armed interval. -/
structure Loop where
  upDone : Bool
  downDone : Bool
  closeSeen : Bool
  ticker : Option ℕ
  deriving Repr, DecidableEq

def Loop.start (idle : Option ℕ) : Loop :=
  ⟨false, false, false, idle.map idleTickPeriod⟩

/- What the polls of one turn answer. `recheck` is the second poll of `closed`,
made only after the upload has failed; `idleFor` is `activity.idle_for()`. -/
structure Turn where
  closed : Option IoResult
  up : Option IoResult
  recheck : Option IoResult
  down : Option IoResult
  tick : Bool
  idleFor : ℕ

inductive Outcome where
  | again (l : Loop)
  | finished
  | watchdog
  | failed (e : IoError)
  deriving DecidableEq

def settle (l : Loop) : Outcome := if l.upDone && l.downDone then .finished else .again l

/- The watchdog's limit: `None => continue` before a close without an idle timeout. -/
def limit (idle : Option ℕ) (l : Loop) : Option ℕ :=
  if l.closeSeen then some (idle.getD postCloseDrainTimeout) else idle

/- The watchdog branch (relay.rs:446-459). -/
def onTick (idle : Option ℕ) (l : Loop) (idleFor : ℕ) : Outcome :=
  match limit idle l with
  | some bound => if bound ≤ idleFor then .watchdog else .again l
  | none => .again l

/- The close branch (relay.rs:409-421): it arms the ticker when none is armed. -/
def onClosed (l : Loop) : IoResult → Outcome
  | .error e => .failed e
  | .ok _ => settle { l with
      upDone := true
      closeSeen := true
      ticker := l.ticker.orElse fun _ => some (idleTickPeriod postCloseDrainTimeout) }

/- The upload branch (relay.rs:422-437), with the recheck after an error. -/
def onUp (l : Loop) (recheck : Option IoResult) : IoResult → Outcome
  | .ok _ => settle { l with upDone := true }
  | .error e =>
    match recheck with
    | some (.ok _) => settle { l with closeSeen := true, upDone := true }
    | some (.error close) => .failed close
    | none => .failed e

/- The download branch (relay.rs:438-441). -/
def onDown (l : Loop) : IoResult → Outcome
  | .error e => .failed e
  | .ok _ => settle { l with downDone := true }

/- `if l.closeSeen` and its like are the branch preconditions: a disabled branch is not polled. -/
def enabled (off : Bool) (poll : Option IoResult) : Option IoResult := if off then none else poll

/- One `select!`; `none` when every polled branch is pending, so the task sleeps on. -/
def turn (idle : Option ℕ) (l : Loop) (t : Turn) : Option Outcome :=
  match enabled l.closeSeen t.closed with
  | some r => some (onClosed l r)
  | none =>
    match enabled l.upDone t.up with
    | some r => some (onUp l t.recheck r)
    | none =>
      match enabled l.downDone t.down with
      | some r => some (onDown l r)
      | none => if l.ticker.isSome && t.tick then some (onTick idle l t.idleFor) else none

def Outcome.next : Outcome → Option Loop
  | .again l => some l
  | _ => none

/- The loop as a machine over its locals: the turns that go round again. -/
def step (idle : Option ℕ) (l : Loop) (t : Turn) : Option Loop :=
  (turn idle l t).bind Outcome.next

end Alighieri.Relay
