import Alighieri.Dns
import Alighieri.Lib.Table
import Alighieri.Lib.Transition
import Mathlib.Data.List.MinMax

/-!
# The UDP association relay (relay.rs:133-181, 766-865, 876-1077)

Two loops share the client's endpoint, the set of contacted remotes and the activity clock. Each
suspends while it waits for a datagram or for its send, `relay_client_to_remote` also for the
resolver. A label is what ends such a wait, with the answers of the plugin and of the throttle
that the code asks for before the next one.
-/

namespace Alighieri.Relay.Udp
open Net Socks5 Dns List

/-! ### Shared state -/

def maxContactedRemotes : ℕ := 256

structure ContactedRemotes where
  seen : Table SocketAddr ℕ
  ticks : ℕ
  matchPort : Bool

variable {addr l src : SocketAddr} {clientIp : IpAddr} {buf : Bytes} {header : UdpHeader}
  {c : ContactedRemotes}

/- The lookup key: without `udp.strictreply` the port is dropped. -/
def remoteKey (matchPort : Bool) (addr : SocketAddr) : SocketAddr :=
  if matchPort then addr else .new addr.ip 0

namespace ContactedRemotes

def new (matchPort : Bool) : ContactedRemotes := ⟨∅, 0, matchPort⟩

def key (c : ContactedRemotes) (addr : SocketAddr) : SocketAddr := remoteKey c.matchPort addr

def oldest (c : ContactedRemotes) : Option SocketAddr :=
  (c.seen.entries.argmin fun e => e.2).map fun e => e.1

def makeRoom (c : ContactedRemotes) (key : SocketAddr) : Table SocketAddr ℕ :=
  if maxContactedRemotes ≤ c.seen.size ∧ c.seen.lookup key = none then
    match c.oldest with
    | some k => c.seen.set k none
    | none => c.seen
  else c.seen

/- The ticks are a `u64`, whose sum wraps in a release build. -/
def record (c : ContactedRemotes) (addr : SocketAddr) : ContactedRemotes :=
  { c with
    seen := (c.makeRoom (c.key addr)).set (c.key addr) (some ((c.ticks + 1) % 2 ^ 64))
    ticks := (c.ticks + 1) % 2 ^ 64 }

def contains (c : ContactedRemotes) (addr : SocketAddr) : Bool :=
  (c.seen.lookup (c.key addr)).isSome

theorem lookup_makeRoom (key : SocketAddr) {k : SocketAddr}
    (h : ((c.makeRoom key).lookup k).isSome = true) : (c.seen.lookup k).isSome = true := by
  unfold makeRoom at h
  split at h
  · split at h
    · rename_i old hold
      by_cases hk : k = old
      · subst hk
        simp at h
      · rwa [Table.lookup_set_of_ne hk] at h
    · exact h
  · exact h

theorem contains_record {a : SocketAddr} (h : (c.record addr).contains a = true) :
    c.key a = c.key addr ∨ c.contains a = true := by
  by_cases hk : c.key a = c.key addr
  · exact .inl hk
  · have hlookup := Table.lookup_set_of_ne (t := c.makeRoom (c.key addr))
      (v := some ((c.ticks + 1) % 2 ^ 64)) hk
    refine .inr (lookup_makeRoom (c.key addr) ?_)
    rw [← hlookup]
    exact h

end ContactedRemotes

/- `ActivityClock`: the times of all marks, the newest first; `last_ms` is the
newest. -/
structure ActivityClock where
  marks : List ℕ
  deriving DecidableEq, Repr

namespace ActivityClock

def mark (c : ActivityClock) (now : ℕ) : ActivityClock := ⟨now :: c.marks⟩

end ActivityClock

/- What the two loops share. `lock` is the `OnceLock` of the client endpoint. -/
structure Shared where
  lock : Option SocketAddr
  contacted : ContactedRemotes
  activity : ActivityClock

/-! ### Checks on one datagram -/

def clientSourceAccepted (src : SocketAddr) (clientIp : IpAddr) (locked : Option SocketAddr) :
    Bool :=
  if toCanonical src.ip ≠ toCanonical clientIp then false
  else match locked with
    | some l => decide (toCanonical l.ip = toCanonical src.ip ∧ l.port = src.port)
    | none => true

def parseClientHeader (buf : Bytes) : Option UdpHeader :=
  if buf[2]?.any (· != 0) then none else (parseUdpHeader buf).toOption

def canonical (addr : SocketAddr) : SocketAddr := .new (toCanonical addr.ip) addr.port

@[simp] theorem canonical_ip (addr : SocketAddr) : (canonical addr).ip = toCanonical addr.ip :=
  SocketAddr.new_ip _ _

@[simp] theorem canonical_port (addr : SocketAddr) : (canonical addr).port = addr.port :=
  SocketAddr.new_port _ _

/- The address-literal branch of `relay_client_to_remote`. -/
def literalDest (policy : DnsPolicy) (addr : SocketAddr) : Option SocketAddr :=
  if addressAllowed (canonical addr).ip policy then some (canonical addr) else none

def toIpv6Mapped (ip : BitVec 32) : BitVec 128 := BitVec.ofNat 128 (0xffff * 2 ^ 32 + ip.toNat)

def sendDest (outboundDual : Bool) (dest : SocketAddr) : SocketAddr :=
  if outboundDual then
    match dest with
    | .v4 ip _ => setIp dest (.v6 (toIpv6Mapped ip))
    | .v6 _ _ _ _ => dest
  else dest

structure Options where
  clientIp : IpAddr
  clientEndpoint : Option SocketAddr
  policy : DnsPolicy
  outboundDual : Bool
  strictReply : Bool
  authorize : Option Text → IpAddr → ℕ → Bool

structure Parcel where
  src : SocketAddr
  buf : Bytes
  header : UdpHeader
  dest : SocketAddr
  deriving DecidableEq

def Parcel.payload (p : Parcel) : Bytes := p.buf.drop p.header.payloadOffset

def Parcel.host (p : Parcel) : Option Text := p.header.dest.host

structure Sending where
  payload : Bytes
  target : SocketAddr
  deriving DecidableEq

def Parcel.sending (o : Options) (p : Parcel) : Sending :=
  ⟨p.payload, sendDest o.outboundDual p.dest⟩

structure Answer where
  src : SocketAddr
  payload : Bytes
  deriving DecidableEq

structure Delivery where
  datagram : Bytes
  target : SocketAddr
  deriving DecidableEq

def Answer.delivery (r : Answer) (caddr : SocketAddr) : Delivery :=
  ⟨udpHeaderTail r.src ++ r.payload, caddr⟩

structure Asked where
  isReply : Bool
  dst : SocketAddr
  payload : Bytes
  verdict : Bool
  deriving DecidableEq

/- What the environment answers while a datagram is handled: the plugin's
verdict, whether the token bucket drops it, and the time on the clock. -/
structure Choice where
  verdict : Bool
  policed : Bool
  now : ℕ
  deriving DecidableEq

/-! ### The two loops -/

inductive Upload where
  | waiting
  | resolving (src : SocketAddr) (buf : Bytes) (header : UdpHeader)
  | sending
  deriving DecidableEq

/- `accepted` and `answered` are the datagrams that passed every check, `sent` and
`delivered` the calls of `send_to`, `asked` the calls of `on_datagram`. -/
structure Assoc where
  shared : Shared
  upload : Upload
  replying : Bool
  accepted : List Parcel
  sent : List Sending
  answered : List Answer
  delivered : List Delivery
  asked : List Asked

variable {sh : Shared} {o : Options} {p : Parcel} {s t : Assoc}

def Assoc.start (o : Options) : Assoc :=
  ⟨⟨o.clientEndpoint, .new o.strictReply, ⟨[]⟩⟩, .waiting, false, [], [], [], [], []⟩

/- The state changes of an accepted client datagram (relay.rs:951-974). -/
def Shared.accept (sh : Shared) (p : Parcel) (now : ℕ) : Shared :=
  ⟨sh.lock.or (some p.src), sh.contacted.record (canonical p.dest), sh.activity.mark now⟩

/- From `authorize` to the call of `send_to`. -/
def forward (o : Options) (s : Assoc) (p : Parcel) (c : Choice) : Assoc :=
  if o.authorize p.host p.dest.ip p.dest.port = false then { s with upload := .waiting }
  else
    let s : Assoc := { s with asked := s.asked ++ [⟨false, p.dest, p.payload, c.verdict⟩] }
    if c.verdict = false then { s with upload := .waiting }
    else
      let s : Assoc := { s with shared := s.shared.accept p c.now, accepted := s.accepted ++ [p] }
      if c.policed then { s with upload := .waiting }
      else { s with sent := s.sent ++ [p.sending o], upload := .sending }

/- `relay_client_to_remote` on a datagram, up to the next suspension. -/
def onClient (o : Options) (s : Assoc) (src : SocketAddr) (buf : Bytes) (c : Choice) : Assoc :=
  if clientSourceAccepted src o.clientIp s.shared.lock = false then s
  else
    match parseClientHeader buf with
    | none => s
    | some header =>
      match header.dest with
      | .ip addr =>
        match literalDest o.policy addr with
        | none => s
        | some dest => forward o s ⟨src, buf, header, dest⟩ c
      | .domain _ _ => { s with upload := .resolving src buf header }

def onResolved (o : Options) (s : Assoc) (src : SocketAddr) (buf : Bytes) (header : UdpHeader)
    (answer : Dns.Answer) (c : Choice) : Assoc :=
  match resolveOne header.dest answer o.policy with
  | .ok (some dest) => forward o s ⟨src, buf, header, dest⟩ c
  | .ok none => { s with upload := .waiting }
  | .error _ => { s with upload := .waiting }

/- `relay_remote_to_client` on a datagram, up to the call of `send_to`. -/
def onRemote (s : Assoc) (r : Answer) (c : Choice) : Assoc :=
  match s.shared.lock with
  | none => s
  | some caddr =>
    if s.shared.contacted.contains (canonical r.src) = false then s
    else
      let s : Assoc := { s with asked := s.asked ++ [⟨true, canonical r.src, r.payload, c.verdict⟩] }
      if c.verdict = false then s
      else
        let s : Assoc := { s with
          shared := { s.shared with activity := s.shared.activity.mark c.now }
          answered := s.answered ++ [r] }
        if c.policed then s
        else
          { s with
            delivered := s.delivered ++ [r.delivery caddr]
            replying := true }

inductive Event where
  | client (src : SocketAddr) (buf : Bytes) (c : Choice)
  | resolved (answer : Dns.Answer) (c : Choice)
  | sent
  | remote (r : Answer) (c : Choice)
  | replied
  deriving DecidableEq

/- A send that has completed, well or not, takes its loop back to `recv`. -/
def step (o : Options) (s : Assoc) : Event → Option Assoc
  | .client src buf c => if s.upload = .waiting then some (onClient o s src buf c) else none
  | .resolved answer c =>
    match s.upload with
    | .resolving src buf header => some (onResolved o s src buf header answer c)
    | _ => none
  | .sent => if s.upload = .sending then some { s with upload := .waiting } else none
  | .remote r c => if s.replying = false then some (onRemote s r c) else none
  | .replied => if s.replying then some { s with replying := false } else none

/-! ### What one step can do -/

/- Source and endpoint agree as `clientSourceAccepted` compares them. -/
def SameEndpoint (l src : SocketAddr) : Prop :=
  toCanonical l.ip = toCanonical src.ip ∧ l.port = src.port

theorem clientSourceAccepted_iff {locked : Option SocketAddr} :
    clientSourceAccepted src clientIp locked = true ↔
      toCanonical src.ip = toCanonical clientIp ∧ ∀ l, locked = some l → SameEndpoint l src := by
  unfold clientSourceAccepted SameEndpoint
  by_cases hip : toCanonical src.ip = toCanonical clientIp
  · cases locked with
    | none | some l => simp [hip]
  · simp [hip]

theorem parseClientHeader_eq (h : parseClientHeader buf = some header) :
    parseUdpHeader buf = .ok header ∧ header.frag = 0 := by
  unfold parseClientHeader at h
  split at h
  · cases h
  rename_i hfrag
  cases hp : parseUdpHeader buf with
  | error e => simp [hp, Except.toOption] at h
  | ok =>
    simp only [hp, Except.toOption, Option.some.injEq] at h
    have hget := parseUdpHeader_frag hp
    simp only [hget, Option.any_some, bne_iff_ne, ne_eq, not_not] at hfrag
    rw [← h]
    exact ⟨rfl, hfrag⟩

theorem literalDest_allowed {policy : DnsPolicy} {dest : SocketAddr}
    (h : literalDest policy addr = some dest) : addressAllowed dest.ip policy = true := by
  unfold literalDest at h
  split at h
  · rename_i hallowed
    cases h
    exact hallowed
  · cases h

/- The checks a parcel has behind it when the endpoint is locked: framing,
destination policy, rules and the plugin. -/
structure Parcel.Vetted (o : Options) (asked : List Asked) (p : Parcel) : Prop where
  fromClient : toCanonical p.src.ip = toCanonical o.clientIp
  framed : parseUdpHeader p.buf = .ok p.header
  whole : p.header.frag = 0
  allowed : addressAllowed p.dest.ip o.policy = true
  authorized : o.authorize p.host p.dest.ip p.dest.port = true
  forwarded : ⟨false, p.dest, p.payload, true⟩ ∈ asked

theorem Parcel.Vetted.mono {asked more : List Asked} (h : p.Vetted o asked)
    (hsub : ∀ a ∈ asked, a ∈ more) : p.Vetted o more :=
  { h with forwarded := hsub _ h.forwarded }

/-- Every step of the association is one of these. Only an accepted client
datagram and an accepted answer touch what the loops share. -/
inductive Move (o : Options) (s : Assoc) : Assoc → Prop where
  | quiet (upload : Upload) (replying : Bool) (asked : List Asked)
      (hheld : ∀ src buf header, upload = .resolving src buf header →
        (clientSourceAccepted src o.clientIp s.shared.lock = true ∧
          parseClientHeader buf = some header)) :
      Move o s { s with upload := upload, replying := replying, asked := s.asked ++ asked }
  | accepted (p : Parcel) (now : ℕ) (sent : List Sending) (upload : Upload)
      (hsent : sent = [] ∨ sent = [p.sending o]) (hupload : upload = .waiting ∨ upload = .sending)
      (hsrc : clientSourceAccepted p.src o.clientIp s.shared.lock = true)
      (hvet : p.Vetted o (s.asked ++ [⟨false, p.dest, p.payload, true⟩])) :
      Move o s { s with
        shared := s.shared.accept p now
        upload := upload
        accepted := s.accepted ++ [p]
        sent := s.sent ++ sent
        asked := s.asked ++ [⟨false, p.dest, p.payload, true⟩] }
  | answered (r : Answer) (now : ℕ) (caddr : SocketAddr) (delivered : List Delivery)
      (replying : Bool) (hlock : s.shared.lock = some caddr)
      (hcontacted : s.shared.contacted.contains (canonical r.src) = true)
      (hdelivered : delivered = [] ∨ delivered = [r.delivery caddr]) :
      Move o s { s with
        shared := { s.shared with activity := s.shared.activity.mark now }
        replying := replying
        answered := s.answered ++ [r]
        delivered := s.delivered ++ delivered
        asked := s.asked ++ [⟨true, canonical r.src, r.payload, true⟩] }

theorem Move.idle (s : Assoc) (upload : Upload) (replying : Bool)
    (h : ∀ src buf header, upload = .resolving src buf header →
      (clientSourceAccepted src o.clientIp s.shared.lock = true ∧
        parseClientHeader buf = some header)) :
    Move o s { s with upload := upload, replying := replying } := by
  have hmove := Move.quiet (o := o) (s := s) upload replying [] h
  rwa [append_nil] at hmove

theorem forward_move (c : Choice)
    (hsrc : clientSourceAccepted p.src o.clientIp s.shared.lock = true)
    (hparse : parseClientHeader p.buf = some p.header)
    (hallowed : addressAllowed p.dest.ip o.policy = true) : Move o s (forward o s p c) := by
  obtain ⟨hframed, hwhole⟩ := parseClientHeader_eq hparse
  unfold forward
  split
  · exact Move.idle s .waiting s.replying (by simp)
  · rename_i hauth
    split
    · exact Move.quiet .waiting s.replying [_] (by simp)
    · rename_i hverdict
      have hv : c.verdict = true := by simpa using hverdict
      have hvet : p.Vetted o (s.asked ++ [⟨false, p.dest, p.payload, true⟩]) :=
        ⟨(clientSourceAccepted_iff.mp hsrc).1, hframed, hwhole, hallowed,
          by simpa using hauth, by simp⟩
      rw [hv]
      split
      · have hmove := Move.accepted p c.now [] .waiting (.inl rfl) (.inl rfl) hsrc hvet
        rwa [append_nil] at hmove
      · exact Move.accepted p c.now [p.sending o] .sending (.inr rfl) (.inr rfl) hsrc hvet

theorem onClient_move (hw : s.upload = .waiting) (src : SocketAddr) (buf : Bytes) (c : Choice) :
    Move o s (onClient o s src buf c) := by
  have hstay : Move o s s := Move.idle s s.upload s.replying (by simp [hw])
  unfold onClient
  split
  · exact hstay
  · rename_i hsource
    have hsrc : clientSourceAccepted src o.clientIp s.shared.lock = true := by
      simpa using hsource
    cases hparse : parseClientHeader buf with
    | none => exact hstay
    | some header =>
      cases hdest : header.dest with
      | ip addr =>
        simp only [hdest]
        cases hlit : literalDest o.policy addr with
        | none => exact hstay
        | some => exact forward_move c hsrc hparse (literalDest_allowed hlit)
      | domain =>
        simp only [hdest]
        refine Move.idle s _ s.replying ?_
        intro src' buf' header' heq
        cases heq
        exact ⟨hsrc, hparse⟩

theorem onResolved_move (hsrc : clientSourceAccepted src o.clientIp s.shared.lock = true)
    (hparse : parseClientHeader buf = some header) (answer : Dns.Answer) (c : Choice) :
    Move o s (onResolved o s src buf header answer c) := by
  unfold onResolved
  split
  · rename_i hdest
    exact forward_move c hsrc hparse (resolveOne_allowed hdest)
  · exact Move.idle s .waiting s.replying (by simp)
  · exact Move.idle s .waiting s.replying (by simp)

theorem onRemote_move (hheld : ∀ src buf header, s.upload = .resolving src buf header →
      (clientSourceAccepted src o.clientIp s.shared.lock = true ∧
        parseClientHeader buf = some header)) (r : Answer) (c : Choice) :
    Move o s (onRemote s r c) := by
  have hstay : Move o s s := Move.idle s s.upload s.replying hheld
  unfold onRemote
  split
  · exact hstay
  · rename_i caddr hlock
    split
    · exact hstay
    · rename_i hcontacted
      have hin : s.shared.contacted.contains (canonical r.src) = true := by simpa using hcontacted
      split
      · exact Move.quiet s.upload s.replying [_] hheld
      · rename_i hverdict
        have hv : c.verdict = true := by simpa using hverdict
        rw [hv]
        split
        · have hmove := Move.answered (o := o) r c.now caddr [] s.replying hlock hin (.inl rfl)
          rwa [append_nil] at hmove
        · exact Move.answered r c.now caddr [_] true hlock hin (.inr rfl)

/-! ### The invariant of a run -/

/-- What holds between any two suspensions. `held` is what the upload loop keeps
in its local variables while it waits for the resolver. -/
structure Sound (o : Options) (s : Assoc) : Prop where
  held : ∀ src buf header, s.upload = .resolving src buf header →
    (clientSourceAccepted src o.clientIp s.shared.lock = true ∧
      parseClientHeader buf = some header)
  vetted : ∀ p ∈ s.accepted, p.Vetted o s.asked
  locked : ∀ p ∈ s.accepted, ∃ l, s.shared.lock = some l ∧ SameEndpoint l p.src
  sent : ∀ x ∈ s.sent, ∃ p ∈ s.accepted, x = p.sending o
  ports : s.shared.contacted.matchPort = o.strictReply
  contacted : ∀ a, s.shared.contacted.contains a = true →
    ∃ p ∈ s.accepted, remoteKey o.strictReply (canonical p.dest) = remoteKey o.strictReply a
  solicited : ∀ r ∈ s.answered,
    ∃ p ∈ s.accepted, remoteKey o.strictReply (canonical p.dest) =
      remoteKey o.strictReply (canonical r.src)
  delivered : ∀ d ∈ s.delivered, s.shared.lock = some d.target ∧
    ∃ r ∈ s.answered, d = r.delivery d.target

theorem Sound.start (o : Options) : Sound o (Assoc.start o) where
  held := by
    intro src buf header h
    cases h
  vetted := by simp [Assoc.start]
  locked := by simp [Assoc.start]
  sent := by simp [Assoc.start]
  ports := rfl
  contacted := by
    intro a h
    simp [Assoc.start, ContactedRemotes.new, ContactedRemotes.contains] at h
  solicited := by simp [Assoc.start]
  delivered := by simp [Assoc.start]

theorem Sound.step_move {a : Event} (h : Sound o s) (hstep : step o s a = some t) : Move o s t := by
  cases a with
  | client src buf c =>
    simp only [step] at hstep
    split at hstep
    · rename_i hw
      cases hstep
      exact onClient_move hw src buf c
    · cases hstep
  | resolved answer c =>
    simp only [step] at hstep
    split at hstep
    · rename_i src buf header hup
      cases hstep
      obtain ⟨hsrc, hparse⟩ := h.held src buf header hup
      exact onResolved_move hsrc hparse answer c
    · cases hstep
  | sent =>
    simp only [step] at hstep
    split at hstep
    · cases hstep
      exact Move.idle s .waiting s.replying (by simp)
    · cases hstep
  | remote r c =>
    simp only [step] at hstep
    split at hstep
    · cases hstep
      exact onRemote_move h.held r c
    · cases hstep
  | replied =>
    simp only [step] at hstep
    split at hstep
    · cases hstep
      exact Move.idle s s.upload false h.held
    · cases hstep

theorem lock_accept (now : ℕ) (hsrc : clientSourceAccepted p.src clientIp sh.lock = true) :
    ∃ l, (sh.accept p now).lock = some l ∧ SameEndpoint l p.src := by
  cases hl : sh.lock with
  | none => exact ⟨p.src, by simp [Shared.accept, hl], rfl, rfl⟩
  | some l =>
    exact ⟨l, by simp [Shared.accept, hl], (clientSourceAccepted_iff.mp hsrc).2 l hl⟩

theorem lock_accept_of_some (h : sh.lock = some l) (p : Parcel) (now : ℕ) :
    (sh.accept p now).lock = some l := by
  simp [Shared.accept, h]

theorem Sound.move (h : Sound o s) (hm : Move o s t) : Sound o t := by
  cases hm with
  | quiet upload replying asked hheld =>
    exact { h with
      held := hheld
      vetted := fun p hp => (h.vetted p hp).mono fun a ha => mem_append_left _ ha }
  | accepted p now sent upload hsent hupload hsrc hvet =>
    have hports : (s.shared.accept p now).contacted.matchPort = o.strictReply := h.ports
    refine ⟨?_, ?_, ?_, ?_, hports, ?_, ?_, ?_⟩
    · intro src buf header hup
      rcases hupload with hu | hu <;> simp [hu] at hup
    · intro q hq
      rcases mem_append.mp hq with hq | hq
      · exact (h.vetted q hq).mono fun a ha => mem_append_left _ ha
      · rw [mem_singleton.mp hq]
        exact hvet
    · intro q hq
      rcases mem_append.mp hq with hq | hq
      · obtain ⟨l, hl, hsame⟩ := h.locked q hq
        exact ⟨l, lock_accept_of_some hl p now, hsame⟩
      · rw [mem_singleton.mp hq]
        exact lock_accept now hsrc
    · intro x hx
      rcases mem_append.mp hx with hx | hx
      · obtain ⟨q, hq, hxq⟩ := h.sent x hx
        exact ⟨q, mem_append_left _ hq, hxq⟩
      · rcases hsent with hs | hs
        · simp [hs] at hx
        · rw [hs] at hx
          exact ⟨p, by simp, mem_singleton.mp hx⟩
    · intro a ha
      rcases ContactedRemotes.contains_record ha with hkey | hold
      · refine ⟨p, by simp, ?_⟩
        simp only [ContactedRemotes.key, h.ports] at hkey
        exact hkey.symm
      · obtain ⟨q, hq, hkey⟩ := h.contacted a hold
        exact ⟨q, mem_append_left _ hq, hkey⟩
    · intro r hr
      obtain ⟨q, hq, hkey⟩ := h.solicited r hr
      exact ⟨q, mem_append_left _ hq, hkey⟩
    · intro d hd
      obtain ⟨hl, hrest⟩ := h.delivered d hd
      exact ⟨lock_accept_of_some hl p now, hrest⟩
  | answered r now caddr delivered replying hlock hcontacted hdelivered =>
    have hadd : ∀ q ∈ s.asked, q ∈ s.asked ++ [⟨true, canonical r.src, r.payload, true⟩] :=
      fun q hq => mem_append_left _ hq
    refine { h with
      held := h.held
      vetted := fun p hp => (h.vetted p hp).mono hadd
      solicited := ?_
      delivered := ?_ }
    · intro r' hr'
      rcases mem_append.mp hr' with hr' | hr'
      · exact h.solicited r' hr'
      · rw [mem_singleton.mp hr']
        exact h.contacted _ hcontacted
    · intro d hd
      rcases mem_append.mp hd with hd | hd
      · obtain ⟨hl, q, hq, hdq⟩ := h.delivered d hd
        exact ⟨hl, q, mem_append_left _ hq, hdq⟩
      · rcases hdelivered with hnone | hone
        · simp [hnone] at hd
        · rw [hone, mem_singleton] at hd
          rw [hd]
          exact ⟨hlock, r, by simp, rfl⟩

theorem Sound.reachable (h : Lts.Reachable (step o) (Assoc.start o) s) : Sound o s :=
  h.invariant (P := Sound o) (Sound.start o) fun _ _ _ hs ht => hs.move (hs.step_move ht)

theorem Move.lock_kept (hm : Move o s t) (h : s.shared.lock = some l) : t.shared.lock = some l := by
  cases hm with
  | quiet | answered => exact h
  | accepted p now => exact lock_accept_of_some h p now

theorem Move.dropped (hm : Move o s t) (hacc : t.accepted = s.accepted)
    (hans : t.answered = s.answered) : t.shared = s.shared := by
  cases hm with
  | quiet => rfl
  | accepted => simp at hacc
  | answered => simp at hans

theorem Move.contacted_of_answered (hm : Move o s t) {r : Answer}
    (h : t.answered = s.answered ++ [r]) :
    s.shared.contacted.contains (canonical r.src) = true := by
  cases hm with
  | quiet | accepted => simp at h
  | answered r' now caddr delivered replying hlock hcontacted =>
    simp only [append_cancel_left_eq, List.cons.injEq, and_true] at h
    rw [← h]
    exact hcontacted

/-- However the loops interleave: what is sent upstream comes from the locked endpoint of the
client, is unfragmented and has passed the deny policy, the rules and the plugin; what is
delivered goes to that endpoint and answers a contacted remote; the endpoint never changes, and a
datagram dropped before the throttle changes nothing the loops share. -/
theorem association_mediates_every_datagram (o : Options) (s : Assoc)
    (h : Lts.Reachable (step o) (Assoc.start o) s) :
    (∀ p ∈ s.accepted, p.Vetted o s.asked ∧
      ∃ l, s.shared.lock = some l ∧ SameEndpoint l p.src) ∧
    (∀ x ∈ s.sent, ∃ p ∈ s.accepted, x = p.sending o) ∧
    (∀ d ∈ s.delivered, s.shared.lock = some d.target ∧
      ∃ r ∈ s.answered, d = r.delivery d.target ∧
        ∃ p ∈ s.accepted, remoteKey o.strictReply (canonical p.dest) =
          remoteKey o.strictReply (canonical r.src)) ∧
    ∀ a t, step o s a = some t →
      (∀ l, s.shared.lock = some l → t.shared.lock = some l) ∧
      (∀ r, t.answered = s.answered ++ [r] →
        s.shared.contacted.contains (canonical r.src) = true) ∧
      (t.accepted = s.accepted → t.answered = s.answered → t.shared = s.shared) := by
  have hs := Sound.reachable h
  refine ⟨fun p hp => ⟨hs.vetted p hp, hs.locked p hp⟩, hs.sent, ?_, ?_⟩
  · intro d hd
    obtain ⟨hlock, r, hr, hdr⟩ := hs.delivered d hd
    exact ⟨hlock, r, hr, hdr, hs.solicited r hr⟩
  · intro a t ht
    have hm := hs.step_move ht
    exact ⟨fun l hl => hm.lock_kept hl, fun r hr => hm.contacted_of_answered hr, hm.dropped⟩

def openOptions : Options :=
  ⟨.v4 0x0a000001, none, ⟨.system, false, []⟩, false, false, fun _ _ _ => true⟩

def echoRun : List Event :=
  [.client (.v4 0x0a000001 4000) [0, 0, 0, 1, 8, 8, 8, 8, 0, 53, 7] ⟨true, false, 1⟩, .sent,
    .remote ⟨.v4 0x08080808 53, [9]⟩ ⟨true, false, 2⟩]

theorem association_mediates_every_datagram_echo :
    ∃ s, Lts.Reachable (step openOptions) (Assoc.start openOptions) s ∧
      s.sent = [⟨[7], .v4 0x08080808 53⟩] ∧
      s.delivered = [⟨[0, 0, 0, 1, 8, 8, 8, 8, 0, 53, 9], .v4 0x0a000001 4000⟩] ∧
      ∀ p ∈ s.accepted, p.Vetted openOptions s.asked ∧
        ∃ l, s.shared.lock = some l ∧ SameEndpoint l p.src := by
  obtain ⟨s, hs⟩ : ∃ s, Lts.exec (step openOptions) (Assoc.start openOptions) echoRun = some s :=
    ⟨_, rfl⟩
  have hreach := Lts.reachable_exec echoRun (Lts.Reachable.start _) hs
  refine ⟨s, hreach, ?_, ?_, (association_mediates_every_datagram openOptions s hreach).1⟩
  · cases hs
    rfl
  · cases hs
    rfl

end Alighieri.Relay.Udp
