import Alighieri.Config
import Alighieri.Net.Addr
import Alighieri.Lib.Table
import Alighieri.Lib.Transition

/-!
# Per-client abuse controls (abuse.rs:31-365)

`admit`, `record_auth_failure`, the drop of a permit and `update_config` at the granularity of
their locks. The thread with the `clients` mutex is the `holder`; it looks at other states with
`try_lock` and locks the state it has checked out only at the end. Between its steps permits are
dropped and buckets retuned. What `try_lock` says and whether a bucket has refilled comes with
the step.

A clone of the configuration is named by its index in the history of configurations; reloads run
one after the other (runtime.rs:165-190). The admission counter is read modulo 64 only, so it is
not wrapped.
-/

namespace Alighieri.Abuse
open Net

def pruneEveryNAdmissions : ℕ := 64
def maxTrackedClients : ℕ := 65536

inductive DenialReason where
  | connectionRate
  | authFailureRate
  | concurrentConnections
  deriving DecidableEq, Repr

/-! ### Windows -/

structure Window where
  started : ℕ
  count : ℕ
  deriving DecidableEq, Repr

def Window.new (now : ℕ) : Window := ⟨now, 0⟩

def resetIfExpired (w : Window) (limit : RateLimit) (now : ℕ) : Window :=
  if limit.window ≤ now - w.started then ⟨now, 0⟩ else w

def isLimitExceeded (w : Window) (limit : Option RateLimit) (now : ℕ) : Bool × Window :=
  match limit with
  | none => (false, w)
  | some limit =>
    let w := resetIfExpired w limit now
    (decide (limit.limit ≤ w.count), w)

def incrementWindow (w : Window) (limit : Option RateLimit) (now : ℕ) : Bool × Window :=
  match limit with
  | none => (false, w)
  | some limit =>
    let w := resetIfExpired w limit now
    let count := min (w.count + 1) maxU64
    (decide (limit.limit < count), ⟨w.started, count⟩)

def windowIsPrunable (w : Window) (limit : Option RateLimit) (now : ℕ) : Bool :=
  match limit with
  | none => true
  | some limit => decide (w.count = 0 ∨ limit.window ≤ now - w.started)

/-! ### The state of one client -/

/- `bandwidth` names the shared bucket. `tuned` is the index of the configuration
the bucket was last reconciled with; only the proofs read it. -/
structure ClientState where
  connections : Window
  authFailures : Window
  bandwidth : Option ℕ
  activeConnections : ℕ
  tuned : ℕ
  deriving DecidableEq, Repr

namespace ClientState

def new (now : ℕ) : ClientState := ⟨.new now, .new now, none, 0, 0⟩

/- `full`: the bucket could be locked and `is_full`. -/
def isExpired (st : ClientState) (config : RateLimits) (now : ℕ) (full : Bool) : Bool :=
  st.activeConnections == 0 && windowIsPrunable st.connections config.connectionRate now &&
    windowIsPrunable st.authFailures config.authFailureRate now && (st.bandwidth.isNone || full)

/- A configured byte rate is never degenerate, so `from_rate_window` returns a
bucket; `fresh` is its name. Retuning a bucket in place keeps its name. -/
def reconcileBandwidth (st : ClientState) (config : RateLimits) (gen fresh : ℕ) : ClientState :=
  { st with
    bandwidth :=
      match config.byteRate, st.bandwidth with
      | some _, none => some fresh
      | some _, some bucket => some bucket
      | none, _ => none
    tuned := gen }

/- The part of `admit` under the lock of the state. -/
def admitClient (st : ClientState) (config : RateLimits) (now gen fresh : ℕ) :
    Except DenialReason Unit × ClientState :=
  let blocked := isLimitExceeded st.authFailures config.authFailureRate now
  let st := { st with authFailures := blocked.2 }
  if blocked.1 then (.error .authFailureRate, st)
  else if config.concurrentConnections.any (· ≤ st.activeConnections) then
    (.error .concurrentConnections, st)
  else
    let exceeded := incrementWindow st.connections config.connectionRate now
    let st := { st with connections := exceeded.2 }
    if exceeded.1 then (.error .connectionRate, st)
    else
      (.ok (), { st with activeConnections := st.activeConnections + 1 }.reconcileBandwidth
        config gen fresh)

def recordAuthFailure (st : ClientState) (config : RateLimits) (now : ℕ) : ClientState :=
  { st with authFailures := (incrementWindow st.authFailures config.authFailureRate now).2 }

def release (st : ClientState) : ClientState :=
  { st with activeConnections := st.activeConnections - 1 }

end ClientState

/-! ### The shared instance -/

inductive Op where
  | admitClient
  | fail
  deriving DecidableEq, Repr

inductive Phase where
  | prune (todo : List IpAddr)
  | room (todo : List IpAddr) (excess : ℕ) (victims : List IpAddr)
  | evict (victims : List IpAddr)
  | enter
  | commit (state : ℕ)
  deriving DecidableEq, Repr

structure Holder where
  op : Op
  ip : IpAddr
  gen : ℕ
  now : ℕ
  phase : Phase
  deriving DecidableEq, Repr

/- A `ClientPermit`. `ip` is the client it was given to and `gen` the
configuration it was given under. -/
structure Permit where
  ip : IpAddr
  state : ℕ
  bandwidth : Option ℕ
  gen : ℕ
  deriving DecidableEq, Repr

/- A reload on its way: it has written the configuration, and then retunes the
states of its snapshot. -/
inductive Update where
  | written
  | retuning (states : List ℕ)
  deriving DecidableEq, Repr

inductive Event where
  | admitted (ip : IpAddr) (now : ℕ)
  | failed (ip : IpAddr) (now : ℕ)
  deriving DecidableEq, Repr

/- `states` is the heap the map's values and the permits point into; `log` has the admissions and
the authentication failures, newest first. -/
structure Controls where
  configs : ℕ → RateLimits
  gen : ℕ
  clients : Table IpAddr ℕ
  states : ℕ → ClientState
  nextState : ℕ
  nextBucket : ℕ
  admissions : ℕ
  permits : List Permit
  holder : Option Holder
  update : Option Update
  clock : ℕ
  log : List Event

def Controls.new (config : RateLimits) : Controls where
  configs := fun _ => config
  gen := 0
  clients := ∅
  states := fun _ => .new 0
  nextState := 0
  nextBucket := 0
  admissions := 0
  permits := []
  holder := none
  update := none
  clock := 0
  log := []

inductive Act where
  | tick (duration : ℕ)
  | admitClient (ip : IpAddr)
  | recordAuthFailure (ip : IpAddr) (gen : ℕ)
  | prune (ip : IpAddr) (busy full : Bool)
  | settle
  | scan (ip : IpAddr) (busy : Bool)
  | evict
  | enter
  | commit
  | release (i : ℕ)
  | write (config : RateLimits)
  | snapshot
  | retune (state : ℕ)
  | updated

namespace Controls

/- Takes the `clients` mutex and reads the clock; every 64th time with a prune. -/
def lockClients (s : Controls) (op : Op) (ip : IpAddr) (gen : ℕ) : Controls :=
  { s with
    admissions := s.admissions + 1
    holder := some ⟨op, ip, gen, s.clock,
      .prune (if s.admissions % pruneEveryNAdmissions = 0 then s.clients.keys else [])⟩ }

def goTo (s : Controls) (h : Holder) (phase : Phase) : Controls :=
  { s with holder := some { h with phase } }

/- One turn of `retain` in `prune_expired_clients`. -/
def visit (s : Controls) (h : Holder) (todo : List IpAddr) (ip : IpAddr) (busy full : Bool) :
    Controls :=
  let s := s.goTo h (.prune (todo.erase ip))
  match s.clients.lookup ip with
  | some id =>
    if !busy && (s.states id).isExpired (s.configs h.gen) h.now full then
      { s with clients := Table.set s.clients ip none }
    else s
  | none => s

/- The prune is over; a new client at the cap needs room. -/
def settle (s : Controls) (h : Holder) : Controls :=
  if maxTrackedClients ≤ Table.size s.clients ∧ s.clients.lookup h.ip = none then
    s.goTo h (.room s.clients.keys (Table.size s.clients - (maxTrackedClients - 1)) [])
  else s.goTo h .enter

/- One turn of the filter in `evict_idle_clients`. -/
def scan (s : Controls) (h : Holder) (todo : List IpAddr) (excess : ℕ) (victims : List IpAddr)
    (ip : IpAddr) (busy : Bool) : Controls :=
  match s.clients.lookup ip with
  | some id =>
    if !busy && (s.states id).activeConnections == 0 then
      s.goTo h (.room (todo.erase ip) excess (victims ++ [ip]))
    else s.goTo h (.room (todo.erase ip) excess victims)
  | none => s.goTo h (.room (todo.erase ip) excess victims)

def enter (s : Controls) (h : Holder) : Controls :=
  match s.clients.lookup h.ip with
  | some id => s.goTo h (.commit id)
  | none =>
    { s.goTo h (.commit s.nextState) with
      clients := Table.set s.clients h.ip (some s.nextState)
      states := Function.update s.states s.nextState (.new h.now)
      nextState := s.nextState + 1 }

/- The end of `admit`: a denial only changes the windows. -/
def commitAdmit (s : Controls) (h : Holder) (id : ℕ) : Controls :=
  let out := (s.states id).admitClient (s.configs h.gen) h.now h.gen s.nextBucket
  let s := { s with states := Function.update s.states id out.2, holder := none }
  match out.1 with
  | .error _ => s
  | .ok _ =>
    { s with
      nextBucket := s.nextBucket + 1
      permits := ⟨h.ip, id, out.2.bandwidth, h.gen⟩ :: s.permits
      log := .admitted h.ip h.now :: s.log }

def commitFail (s : Controls) (h : Holder) (id : ℕ) : Controls :=
  { s with
    states := Function.update s.states id
      ((s.states id).recordAuthFailure (s.configs h.gen) h.now)
    holder := none
    log := .failed h.ip h.now :: s.log }

def dropPermit (s : Controls) (i : ℕ) (p : Permit) : Controls :=
  { s with
    states := Function.update s.states p.state (s.states p.state).release
    permits := s.permits.eraseIdx i }

def write (s : Controls) (config : RateLimits) : Controls :=
  { s with
    configs := Function.update s.configs (s.gen + 1) config
    gen := s.gen + 1
    update := some .written }

def retune (s : Controls) (states : List ℕ) (id : ℕ) : Controls :=
  { s with
    states := Function.update s.states id
      ((s.states id).reconcileBandwidth (s.configs s.gen) s.gen s.nextBucket)
    nextBucket := s.nextBucket + 1
    update := some (.retuning (states.erase id)) }

def tracked (s : Controls) : List ℕ := s.clients.keys.filterMap s.clients.lookup

def step (s : Controls) : Act → Option Controls
  | .tick duration => some { s with clock := s.clock + duration }
  | .admitClient ip => if s.holder = none then some (s.lockClients .admitClient ip s.gen) else none
  | .recordAuthFailure ip gen =>
    -- read before the mutex is taken, the configuration may be an older one
    if s.holder = none ∧ gen ≤ s.gen then some (s.lockClients .fail ip gen) else none
  | .prune ip busy full =>
    match s.holder with
    | some h =>
      match h.phase with
      | .prune todo => if ip ∈ todo then some (s.visit h todo ip busy full) else none
      | _ => none
    | none => none
  | .settle =>
    match s.holder with
    | some h => if h.phase = .prune [] then some (s.settle h) else none
    | none => none
  | .scan ip busy =>
    match s.holder with
    | some h =>
      match h.phase with
      | .room todo excess victims =>
        if ip ∈ todo ∧ victims.length < excess then some (s.scan h todo excess victims ip busy)
        else none
      | _ => none
    | none => none
  | .evict =>
    match s.holder with
    | some h =>
      match h.phase with
      | .room todo excess victims =>
        if todo = [] ∨ victims.length = excess then some (s.goTo h (.evict victims)) else none
      | .evict (ip :: victims) =>
        some { s.goTo h (.evict victims) with clients := Table.set s.clients ip none }
      | .evict [] => some (s.goTo h .enter)
      | _ => none
    | none => none
  | .enter =>
    match s.holder with
    | some h => if h.phase = .enter then some (s.enter h) else none
    | none => none
  | .commit =>
    match s.holder with
    | some h =>
      match h.phase, h.op with
      | .commit id, .admitClient => some (s.commitAdmit h id)
      | .commit id, .fail => some (s.commitFail h id)
      | _, _ => none
    | none => none
  | .release i => (s.permits[i]?).map (s.dropPermit i)
  | .write config => if s.update = none then some (s.write config) else none
  | .snapshot =>
    -- the values are cloned under the `clients` mutex
    if s.update = some .written ∧ s.holder = none then
      some { s with update := some (.retuning s.tracked) }
    else none
  | .retune id =>
    match s.update with
    | some (.retuning states) => if id ∈ states then some (s.retune states id) else none
    | _ => none
  | .updated => if s.update = some (.retuning []) then some { s with update := none } else none

end Controls

end Alighieri.Abuse
