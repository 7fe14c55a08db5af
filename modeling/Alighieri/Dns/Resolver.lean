import Alighieri.Dns.Cache
import Alighieri.Lib.Singleflight
import Alighieri.Lib.Transition

/-!
# Concurrent resolutions (dns.rs:204-301, 403-446)

The calls of `resolve_domain` on one resolver. A label is what one call does between two points
at which another thread may come in; where it awaits it may be dropped. The lookup belongs to the
environment: it answers anything at any time, and its deadline may pass. A leader and its channel
are named by the call, which leads at most once.
-/

namespace Alighieri.Dns
open Net Socks5

/- `io::Result<Vec<SocketAddr>>`, an error being its kind and its text. -/
abbrev Lookup := Except (IoKind × String) (List SocketAddr)

def timedOutError : IoKind × String := (.timedOut, "DNS resolution timed out")

inductive Via where
  | cache (ttl now : ℕ)
  | negative (now : ℕ)
  | lead
  | follow (leader : ℕ)
  deriving DecidableEq, Repr

inductive Pc where
  /- The head of the loop. -/
  | top
  /- The clock was read and the lock of the cache is awaited. -/
  | cacheCheck (ttl now : ℕ)
  | uncached
  | negativeCheck (now : ℕ)
  | join
  /- The lookup is awaited. -/
  | leading (deadline : ℕ)
  /- The lock of the cache is awaited, to store the answer. -/
  | storing (ttl : ℕ) (addrs : List SocketAddr)
  | failing (error : IoKind × String)
  | failingAt (now : ℕ) (error : IoKind × String)
  | publishing (result : Lookup)
  /- Inside `publish`, no longer registered. -/
  | sending (result : Lookup)
  /- Inside `drop`, no longer registered. -/
  | closing
  | following (leader : ℕ)
  /- A change of the channel is awaited. -/
  | waiting (leader : ℕ)
  | finished (via : Via) (result : Lookup)
  /- Dropped as a leader, and before leading. -/
  | closed
  | cancelled
  deriving DecidableEq

structure Task where
  host : Text
  port : ℕ
  ttl : Option ℕ
  timeout : ℕ
  called : ℕ
  pc : Pc

def Task.key (t : Task) : DnsCacheKey := .new t.host t.port

inductive Event where
  | stored (host : Text) (port : ℕ) (addrs : List SocketAddr) (time : ℕ)
  | timedOut (host : Text) (port : ℕ) (time : ℕ)
  | cacheHit (host : Text) (port : ℕ) (ttl called now : ℕ) (addrs : List SocketAddr)
  | negativeHit (host : Text) (port : ℕ) (called now : ℕ)

structure DnsResolver where
  clock : ℕ
  cache : Cache
  negative : Negative
  inflight : Table DnsCacheKey ℕ
  channel : ℕ → Singleflight.Channel Lookup
  tasks : Table ℕ Task
  log : List Event

def DnsResolver.new : DnsResolver := ⟨0, ∅, ∅, ∅, fun _ => .fresh, ∅, []⟩

inductive Act where
  /- The code goes on; `pick` settles which of several oldest entries is evicted. -/
  | go (pick : DnsCacheKey)
  | answer (result : Lookup)
  | expire
  | cancel

inductive Label where
  | tick (d : ℕ)
  | call (id : ℕ) (host : Text) (port : ℕ) (ttl : Option ℕ) (timeout : ℕ)
  | run (id : ℕ) (act : Act)

namespace DnsResolver

def goto (s : DnsResolver) (id : ℕ) (task : Task) (pc : Pc) : DnsResolver :=
  { s with tasks := s.tasks.insert id { task with pc := pc } }

def note (s : DnsResolver) (e : Event) : DnsResolver := { s with log := s.log ++ [e] }

def looked (task : Task) (result : Lookup) : Pc :=
  match task.ttl, result with
  | some ttl, .ok addrs => .storing ttl addrs
  | none, .ok addrs => .publishing (.ok addrs)
  | _, .error e => if e.1 = .timedOut then .failing e else .publishing (.error e)

def go (s : DnsResolver) (id : ℕ) (task : Task) (pick : DnsCacheKey) : Option DnsResolver :=
  match task.pc with
  | .top =>
    match task.ttl with
    | some ttl => some (s.goto id task (.cacheCheck ttl s.clock))
    | none => some (s.goto id task .uncached)
  | .cacheCheck ttl now =>
    let (found, cache) := cached s.cache task.key now ttl
    match found with
    | some addrs =>
      let s := { s with cache := cache }
      some ((s.note (.cacheHit task.host task.port ttl task.called now addrs)).goto id task
        (.finished (.cache ttl now) (.ok addrs)))
    | none => some ({ s with cache := cache }.goto id task .uncached)
  | .uncached => some (s.goto id task (.negativeCheck s.clock))
  | .negativeCheck now =>
    let (hit, negative) := negativelyCached s.negative task.key now
    if hit then
      let s := { s with negative := negative }
      some ((s.note (.negativeHit task.host task.port task.called now)).goto id task
        (.finished (.negative now) (.error timedOutError)))
    else some ({ s with negative := negative }.goto id task .join)
  | .join =>
    match s.inflight.lookup task.key with
    | some leader => some (s.goto id task (.following leader))
    | none =>
      some ({ s with inflight := s.inflight.insert task.key id }.goto id task
        (.leading (s.clock + task.timeout)))
  | .leading _ => none
  | .storing ttl addrs =>
    let s := { s with cache := store s.cache task.key addrs s.clock ttl }
    some ((s.note (.stored task.host task.port addrs s.clock)).goto id task
      (.publishing (.ok addrs)))
  | .failing e => some (s.goto id task (.failingAt s.clock e))
  | .failingAt now e =>
    let s := { s with negative := storeNegative s.negative task.key now pick }
    some ((s.note (.timedOut task.host task.port now)).goto id task (.publishing (.error e)))
  | .publishing result =>
    some ({ s with inflight := s.inflight.erase task.key }.goto id task (.sending result))
  | .sending result =>
    some ({ s with channel := Function.update s.channel id ⟨some result, true⟩ }.goto id task
      (.finished .lead result))
  | .closing =>
    some ({ s with channel := Function.update s.channel id ⟨none, true⟩ }.goto id task .closed)
  | .following leader =>
    match (s.channel leader).value with
    | some result => some (s.goto id task (.finished (.follow leader) result))
    | none => some (s.goto id task (.waiting leader))
  | .waiting leader =>
    match (s.channel leader).value with
    | some _ => some (s.goto id task (.following leader))
    | none => if (s.channel leader).closed then some (s.goto id task .top) else none
  | .finished _ _ => none
  | .closed => none
  | .cancelled => none

/- Only a call that awaits can be dropped. A leader leaves the registry then. -/
def cancel (s : DnsResolver) (id : ℕ) (task : Task) : Option DnsResolver :=
  match task.pc with
  | .cacheCheck _ _ | .waiting _ => some (s.goto id task .cancelled)
  | .leading _ | .storing _ _ =>
    some ({ s with inflight := s.inflight.erase task.key }.goto id task .closing)
  | _ => none

def act (s : DnsResolver) (id : ℕ) (task : Task) : Act → Option DnsResolver
  | .go pick => s.go id task pick
  | .answer result =>
    match task.pc with
    | .leading _ => some (s.goto id task (looked task result))
    | _ => none
  | .expire =>
    match task.pc with
    | .leading deadline =>
      if deadline ≤ s.clock then some (s.goto id task (looked task (.error timedOutError))) else none
    | _ => none
  | .cancel => s.cancel id task

def step (s : DnsResolver) : Label → Option DnsResolver
  | .tick d => some { s with clock := s.clock + d }
  | .call id host port ttl timeout =>
    match s.tasks.lookup id with
    | some _ => none
    | none =>
      some { s with tasks := s.tasks.insert id ⟨host, port, ttl, timeout, s.clock, .top⟩ }
  | .run id a =>
    match s.tasks.lookup id with
    | none => none
    | some task => s.act id task a

end DnsResolver

end Alighieri.Dns
