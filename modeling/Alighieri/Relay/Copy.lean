import Alighieri.Relay.Select

/-!
# The TCP relay with a clock (relay.rs:303-356, 381-466, 482-558, 842-873)

`copy_direction` and `shaped_wait` as a machine whose labels are the answers of the reader, the
writer, the throttle and the timer, run in one task with the select loop. Time is in milliseconds
since `ActivityClock::new`. Buffers are represented by their lengths.
-/

namespace Alighieri.Relay

/- relay.rs:28 and relay.rs:32 -/
def tcpBuf : ℕ := 32 * 1024
def maxShapedNap : ℕ := 3600000

/- What the three callers of `relay_streams_until` choose. -/
structure Config where
  idle : Option ℕ
  throttled : Bool
  strictShutdown : Bool
  deriving Repr, DecidableEq

/- Where one `copy_direction` future is suspended. `napping` is the sleep of `shaped_wait` until
`wake`, with `remaining` left after it; `writing` is inside `write_all`, with `left` bytes not yet
accepted. -/
inductive Phase where
  | reading
  | napping (chunk wake remaining : ℕ)
  | writing (chunk left : ℕ)
  | shutting
  | ended (r : IoResult)
  deriving DecidableEq

/- What a copy future is woken with. `wait` is the answer of `throttle.reserve`. -/
inductive CopyEvent where
  | read (n wait : ℕ)
  | readFailed (e : IoError)
  | woken
  | accepted (k : ℕ)
  | writeFailed (e : IoError)
  | shutdown (r : IoResult)

/- The cap of one nap: `idle / 2` when that is not zero, and at most an hour. -/
def napCap (idle : Option ℕ) : ℕ :=
  match (idle.map (· / 2)).filter (fun s => decide (0 < s)) with
  | some s => min s maxShapedNap
  | none => maxShapedNap

/- `shaped_wait` at the head of its loop: nothing to wait for hands the chunk to
`write_all`, otherwise the next nap starts. -/
def shapedWait (idle : Option ℕ) (now chunk wait : ℕ) : Phase :=
  if wait = 0 then .writing chunk chunk
  else .napping chunk (now + min wait (napCap idle)) (wait - min wait (napCap idle))

def copyDirection (cfg : Config) (now : ℕ) : Phase → CopyEvent → Option Phase
  | .reading, .read n wait =>
    if n = 0 then some .shutting
    else if n ≤ tcpBuf then
      some (shapedWait cfg.idle now n (if cfg.throttled then wait else 0))
    else none
  | .reading, .readFailed e => some (.ended (.error e))
  | .napping chunk wake remaining, .woken =>
    if wake ≤ now then some (shapedWait cfg.idle now chunk remaining) else none
  | .writing chunk left, .accepted k =>
    if 0 < k ∧ k ≤ left then
      some (if k = left then .reading else .writing chunk (left - k))
    else none
  | .writing _ _, .writeFailed e => some (.ended (.error e))
  | .shutting, .shutdown r => some (.ended (if cfg.strictShutdown then r else .ok ()))
  | _, _ => none

/- `activity.mark()`: after a read that is not an end of file, and after each nap. -/
def CopyEvent.marks : CopyEvent → Bool
  | .read n _ => decide (0 < n)
  | .woken => true
  | _ => false

/- Bytes move when they are read or accepted, and while a throttle wait lasts. -/
def CopyEvent.moves : CopyEvent → Bool
  | .read n _ => decide (0 < n)
  | .woken => true
  | .accepted _ => true
  | _ => false

/- `total` is the byte counter. -/
structure Copy where
  phase : Phase
  total : ℕ
  deriving DecidableEq

def Copy.start : Copy := ⟨.reading, 0⟩

def Copy.result (c : Copy) : Option IoResult :=
  match c.phase with
  | .ended r => some r
  | _ => none

def Copy.holds (c : Copy) : Bool :=
  match c.phase with
  | .napping _ _ _ => true
  | .writing _ _ => true
  | _ => false

def Copy.naps (c : Copy) : Bool :=
  match c.phase with
  | .napping _ _ _ => true
  | _ => false

def Copy.napOver (now : ℕ) (c : Copy) : Bool :=
  match c.phase with
  | .napping _ wake _ => decide (wake ≤ now)
  | _ => false

/- `total.fetch_add(n)` once the whole chunk has been accepted. -/
def Copy.written (c : Copy) : CopyEvent → ℕ
  | .accepted k =>
    match c.phase with
    | .writing chunk left => if k = left then chunk else 0
    | _ => 0
  | _ => 0

def Copy.step (cfg : Config) (now : ℕ) (c : Copy) (e : CopyEvent) : Option Copy :=
  (copyDirection cfg now c.phase e).map fun p => ⟨p, c.total + c.written e⟩

inductive Dir where
  | up
  | down
  deriving DecidableEq, Repr

inductive Ending where
  | finished
  | watchdog
  | failed (e : IoError)
  deriving DecidableEq

/- The task of `relay_streams_until`. `due` is the deadline of the ticker. `moved` is the latest
instant at which bytes moved and `stall` the longest time without; the program has neither. -/
structure Sys where
  now : ℕ
  last : ℕ
  due : ℕ
  loop : Loop
  up : Copy
  down : Copy
  moved : ℕ
  stall : ℕ
  ending : Option Ending
  deriving DecidableEq

def Sys.start (cfg : Config) : Sys where
  now := 0
  last := 0
  due := 0
  loop := Loop.start cfg.idle
  up := .start
  down := .start
  moved := 0
  stall := 0
  ending := none

def Sys.copy (s : Sys) : Dir → Copy
  | .up => s.up
  | .down => s.down

def Sys.setCopy (s : Sys) (c : Copy) : Dir → Sys
  | .up => { s with up := c }
  | .down => { s with down := c }

/- A direction whose branch is switched off is not polled any more. -/
def Sys.polled (s : Sys) : Dir → Bool
  | .up => !s.loop.upDone
  | .down => !s.loop.downDone

def Sys.napping (s : Sys) : Bool :=
  (s.polled .up && s.up.naps) || (s.polled .down && s.down.naps)

/- The biased `select!` polls the copies before the ticker, so a nap that is over marks the clock
before a tick is seen. -/
def Sys.napOver (s : Sys) : Bool :=
  (s.polled .up && s.up.napOver s.now) || (s.polled .down && s.down.napOver s.now)

inductive Act where
  | advance (d : ℕ)
  | copy (d : Dir) (e : CopyEvent)
  | select (closed recheck : Option IoResult)

/- The polls of one `select!`, up to what the transport answers about the close. -/
def Sys.turnOf (s : Sys) (closed recheck : Option IoResult) : Turn where
  closed := closed
  up := s.up.result
  recheck := recheck
  down := s.down.result
  tick := decide (s.due ≤ s.now) && !s.napOver
  idleFor := s.now - s.last

/- The `select!` gets as far as the ticker, and the ticker is ready. -/
def ticked (l : Loop) (t : Turn) : Bool :=
  (enabled l.closeSeen t.closed).isNone && (enabled l.upDone t.up).isNone &&
    (enabled l.downDone t.down).isNone && l.ticker.isSome && t.tick

/- The deadline after a turn: a new ticker is ready at once, a handled tick comes
again one period later (`MissedTickBehavior::Delay`). -/
def Sys.dueAfter (s : Sys) (t : Turn) (l : Loop) : ℕ :=
  if s.loop.ticker.isNone then s.now
  else if ticked s.loop t then s.now + l.ticker.getD 0
  else s.due

def Sys.advance (s : Sys) (d : ℕ) : Sys :=
  if s.napping then { s with now := s.now + d, moved := s.now + d }
  else { s with now := s.now + d, stall := max s.stall (s.now + d - s.moved) }

def Sys.afterCopy (s : Sys) (d : Dir) (c : Copy) (e : CopyEvent) : Sys :=
  { s.setCopy c d with
    last := if e.marks then s.now else s.last
    moved := if e.moves then s.now else s.moved }

def Sys.afterTurn (s : Sys) (t : Turn) : Outcome → Sys
  | .again l => { s with loop := l, due := s.dueAfter t l }
  | .finished => { s with ending := some .finished }
  | .watchdog => { s with ending := some .watchdog }
  | .failed e => { s with ending := some (.failed e) }

/- One step of the relay; nothing runs after the loop has been left. -/
def Sys.step (cfg : Config) (s : Sys) (a : Act) : Option Sys :=
  if s.ending.isSome then none
  else match a with
    | .advance d => some (s.advance d)
    | .copy d e =>
      if s.polled d then ((s.copy d).step cfg s.now e).map fun c => s.afterCopy d c e
      else none
    | .select closed recheck =>
      (turn cfg.idle s.loop (s.turnOf closed recheck)).map
        (s.afterTurn (s.turnOf closed recheck))

end Alighieri.Relay
