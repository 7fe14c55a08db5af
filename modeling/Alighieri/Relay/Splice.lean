import Alighieri.Relay.Udp

/-!
# The pass-through of a taken-over association (relay.rs:1188-1445, plugin.rs:770-826)

`splice_association` relays through the two datagram facades. Neither direction suspends between
receiving a datagram and its `send_to`, so a run is the sequence in which the datagrams are
handled. The core relay is taken on the same sequence with a plugin that forwards everything and
sends that complete.
-/

namespace Alighieri.Relay.Udp
open Net Socks5 Dns

/-! ### The facades -/

/- `ClientDatagrams::recv` on one datagram: the payload and the origin, with the
endpoint locked and the clock marked, or a drop. -/
def clientRecv (o : Options) (sh : Shared) (src : SocketAddr) (buf : Bytes) (now : ℕ) :
    Option (Shared × Bytes × SocketAddr) :=
  if clientSourceAccepted src o.clientIp sh.lock = false then none
  else if buf[3]? = some atypDomain then none
  else
    match parseClientHeader buf with
    | none => none
    | some header =>
      match header.dest with
      | .ip addr =>
        some ({ sh with lock := sh.lock.or (some src), activity := sh.activity.mark now },
          buf.drop header.payloadOffset, canonical addr)
      | .domain _ _ => none

/- `UpstreamOriginator::authorize`: the address of the token. -/
def upstreamAuthorize (o : Options) (host : Option Text) (dst : SocketAddr) : Option SocketAddr :=
  if addressAllowed (canonical dst).ip o.policy = false then none
  else if o.authorize host (canonical dst).ip (canonical dst).port = false then none
  else some (canonical dst)

def upstreamSendTo (o : Options) (sh : Shared) (target : SocketAddr) (payload : Bytes)
    (policed : Bool) : Shared × List Sending :=
  ({ sh with contacted := sh.contacted.record target },
    if policed then [] else [⟨payload, sendDest o.outboundDual target⟩])

def upstreamRecv (sh : Shared) (src : SocketAddr) (now : ℕ) : Option (Shared × SocketAddr) :=
  if sh.contacted.contains (canonical src) = false then none
  else some ({ sh with activity := sh.activity.mark now }, canonical src)

def clientSend (sh : Shared) (source : SocketAddr) (payload : Bytes) (policed : Bool) :
    List Delivery :=
  match sh.lock with
  | none => []
  | some caddr => if policed then [] else [⟨udpHeaderTail source ++ payload, caddr⟩]

/-! ### Both relays on one sequence of datagrams -/

inductive Datagram where
  | client (src : SocketAddr) (buf : Bytes) (policed : Bool) (now : ℕ)
  | remote (r : Answer) (policed : Bool) (now : ℕ)

variable {header : UdpHeader} {s : Assoc} {d : Datagram}

/- A client datagram that does not carry a host name. -/
def Datagram.IpAddressed : Datagram → Prop
  | .client _ buf _ _ => buf[3]? ≠ some atypDomain
  | .remote _ _ _ => True

/- What can be seen of a relay from outside, and the state it shares. -/
structure Observed where
  shared : Shared
  sent : List Sending
  delivered : List Delivery

def Observed.start (o : Options) : Observed :=
  ⟨⟨o.clientEndpoint, .new o.strictReply, ⟨[]⟩⟩, [], []⟩

/- One turn of a direction of `splice_association`. -/
def spliceStep (o : Options) (s : Observed) : Datagram → Observed
  | .client src buf policed now =>
    match clientRecv o s.shared src buf now with
    | none => s
    | some (sh, payload, origin) =>
      match upstreamAuthorize o none origin with
      | none => { s with shared := sh }
      | some target =>
        { s with
          shared := (upstreamSendTo o sh target payload policed).1
          sent := s.sent ++ (upstreamSendTo o sh target payload policed).2 }
  | .remote r policed now =>
    match upstreamRecv s.shared r.src now with
    | none => s
    | some (sh, origin) =>
      { s with shared := sh, delivered := s.delivered ++ clientSend sh origin r.payload policed }

def spliceRun (o : Options) (ds : List Datagram) : Observed :=
  ds.foldl (spliceStep o) (.start o)

/- One datagram through the core relay, up to the completion of its send. -/
def coreStep (o : Options) (s : Assoc) : Datagram → Assoc
  | .client src buf policed now =>
    { onClient o s src buf ⟨true, policed, now⟩ with upload := .waiting }
  | .remote r policed now => { onRemote s r ⟨true, policed, now⟩ with replying := false }

def coreRun (o : Options) (ds : List Datagram) : Assoc := ds.foldl (coreStep o) (.start o)

def Assoc.observed (s : Assoc) : Observed := ⟨s.shared, s.sent, s.delivered⟩

/- The condition on a datagram in the state it meets: if the client leg takes it,
its destination passes the deny policy and the rules. -/
def Permitted (o : Options) (sh : Shared) : Datagram → Prop
  | .client src buf _ _ =>
    clientSourceAccepted src o.clientIp sh.lock = true →
      ∀ header addr, parseClientHeader buf = some header → header.dest = .ip addr →
        (upstreamAuthorize o none addr).isSome = true
  | .remote _ _ _ => True

theorem coreRun_snoc (o : Options) (ds : List Datagram) (d : Datagram) :
    coreRun o (ds ++ [d]) = coreStep o (coreRun o ds) d := by
  simp [coreRun, List.foldl_append]

theorem spliceRun_snoc (o : Options) (ds : List Datagram) (d : Datagram) :
    spliceRun o (ds ++ [d]) = spliceStep o (spliceRun o ds) d := by
  simp [spliceRun, List.foldl_append]

/-! ### The core turns are runs of the association machine -/

/- No resolver is asked for an address literal, so after `onClient` the upload
loop waits for a datagram or for its send. -/
theorem forward_upload (o : Options) (s : Assoc) (p : Parcel) (c : Choice) :
    (forward o s p c).upload = .waiting ∨ (forward o s p c).upload = .sending := by
  unfold forward
  split
  · exact .inl rfl
  · split
    · exact .inl rfl
    · split
      · exact .inl rfl
      · exact .inr rfl

theorem dest_ip_of_parse {buf : Bytes} (hip : buf[3]? ≠ some atypDomain)
    (h : parseClientHeader buf = some header) : ∃ addr, header.dest = .ip addr := by
  have hparse := (parseClientHeader_eq h).1
  match buf with
  | [] | [_] | [_, _] | [_, _, _] => cases hparse
  | r0 :: r1 :: frag :: atyp :: rest =>
    have hatyp : atyp ≠ atypDomain := by simpa using hip
    simp only [parseUdpHeader] at hparse
    split at hparse
    · cases hparse
    cases hd : parseUdpDest atyp rest with
    | error e => simp [hd, bind, Except.bind] at hparse
    | ok d =>
      simp only [hd, bind, Except.bind, Except.ok.injEq] at hparse
      rw [← hparse]
      simp only [parseUdpDest, hatyp, if_false] at hd
      split at hd
      · split at hd
        · cases hd
        · cases hd
          exact ⟨_, rfl⟩
      · split at hd
        · split at hd
          · cases hd
          · cases hd
            exact ⟨_, rfl⟩
        · cases hd

theorem onClient_upload (o : Options) (hw : s.upload = .waiting) (src : SocketAddr) {buf : Bytes}
    (hip : buf[3]? ≠ some atypDomain) (c : Choice) :
    (onClient o s src buf c).upload = .waiting ∨ (onClient o s src buf c).upload = .sending := by
  unfold onClient
  split
  · exact .inl hw
  · cases hparse : parseClientHeader buf with
    | none => exact .inl hw
    | some =>
      obtain ⟨addr, haddr⟩ := dest_ip_of_parse hip hparse
      simp only [haddr]
      cases literalDest o.policy addr with
      | none => exact .inl hw
      | some => exact forward_upload o s _ c

/- Between datagrams both loops are back at `recv`. -/
def Assoc.Rests (s : Assoc) : Prop := s.upload = .waiting ∧ s.replying = false

theorem coreStep_reachable {o : Options} (hr : s.Rests) (hip : d.IpAddressed)
    (h : Lts.Reachable (step o) (Assoc.start o) s) :
    Lts.Reachable (step o) (Assoc.start o) (coreStep o s d) ∧ (coreStep o s d).Rests := by
  obtain ⟨hw, hrep⟩ := hr
  cases d with
  | client src buf policed now =>
    have hrest : (onClient o s src buf ⟨true, policed, now⟩).replying = false := by
      have hkeep : ∀ p, (forward o s p ⟨true, policed, now⟩).replying = s.replying := by
        intro p
        unfold forward
        repeat' split
        all_goals rfl
      unfold onClient
      repeat' split
      all_goals first | exact hrep | exact (hkeep _).trans hrep
    refine ⟨?_, rfl, hrest⟩
    have hstep : step o s (.client src buf ⟨true, policed, now⟩) =
        some (onClient o s src buf ⟨true, policed, now⟩) := by simp [step, hw]
    rcases onClient_upload o hw src hip ⟨true, policed, now⟩ with hup | hup
    · have hsame : coreStep o s (.client src buf policed now) =
          onClient o s src buf ⟨true, policed, now⟩ := by
        simp only [coreStep, ← hup]
      rw [hsame]
      exact h.next hstep
    · refine (h.next hstep).next (a := .sent) ?_
      simp [step, hup, coreStep]
  | remote r policed now =>
    have hup : (onRemote s r ⟨true, policed, now⟩).upload = .waiting := by
      unfold onRemote
      repeat' split
      all_goals exact hw
    refine ⟨?_, hup, rfl⟩
    have hstep : step o s (.remote r ⟨true, policed, now⟩) =
        some (onRemote s r ⟨true, policed, now⟩) := by simp [step, hrep]
    cases hrp : (onRemote s r ⟨true, policed, now⟩).replying with
    | false =>
      have hsame : coreStep o s (.remote r policed now) = onRemote s r ⟨true, policed, now⟩ := by
        simp only [coreStep, ← hrp]
      rw [hsame]
      exact h.next hstep
    | true =>
      refine (h.next hstep).next (a := .replied) ?_
      simp [step, hrp, coreStep]

theorem coreRun_reachable {o : Options} (ds : List Datagram) (hip : ∀ d ∈ ds, d.IpAddressed) :
    Lts.Reachable (step o) (Assoc.start o) (coreRun o ds) ∧ (coreRun o ds).Rests := by
  induction ds using List.reverseRecOn with
  | nil => exact ⟨Lts.Reachable.start _, rfl, rfl⟩
  | append_singleton ds d ih =>
    obtain ⟨hreach, hrests⟩ := ih fun e he => hip e (List.mem_append_left _ he)
    rw [coreRun_snoc]
    exact coreStep_reachable hrests (hip d (by simp)) hreach

/-! ### One datagram through both -/

@[simp] theorem canonical_idem (addr : SocketAddr) : canonical (canonical addr) = canonical addr := by
  simp only [canonical, SocketAddr.new_ip, SocketAddr.new_port, toCanonical_idem]

theorem udpHeaderTail_canonical (addr : SocketAddr) :
    udpHeaderTail (canonical addr) = udpHeaderTail addr := by
  simp only [udpHeaderTail, canonical, SocketAddr.new_ip, SocketAddr.new_port, toCanonical_idem]

theorem upstreamAuthorize_canonical (o : Options) (host : Option Text) (addr : SocketAddr) :
    upstreamAuthorize o host (canonical addr) = upstreamAuthorize o host addr := by
  simp only [upstreamAuthorize, canonical_idem]

/- A header the client leg takes, in the state the datagram meets. -/
def Taken (o : Options) (sh : Shared) (src : SocketAddr) (buf : Bytes) (header : UdpHeader)
    (addr : SocketAddr) : Prop :=
  clientSourceAccepted src o.clientIp sh.lock = true ∧ parseClientHeader buf = some header ∧
    header.dest = .ip addr

theorem taken_or_not (o : Options) (sh : Shared) (src : SocketAddr) {buf : Bytes}
    (hip : buf[3]? ≠ some atypDomain) :
    (∃ header addr, Taken o sh src buf header addr) ∨
      clientSourceAccepted src o.clientIp sh.lock = false ∨ parseClientHeader buf = none := by
  cases hsrc : clientSourceAccepted src o.clientIp sh.lock with
  | false => exact .inr (.inl rfl)
  | true =>
    cases hparse : parseClientHeader buf with
    | none => exact .inr (.inr rfl)
    | some header =>
      obtain ⟨addr, haddr⟩ := dest_ip_of_parse hip hparse
      exact .inl ⟨header, addr, hsrc, hparse, haddr⟩

section Client

variable {o : Options} {src : SocketAddr} {buf : Bytes}

theorem coreStep_untaken (policed : Bool) (now : ℕ)
    (h : clientSourceAccepted src o.clientIp s.shared.lock = false ∨
      parseClientHeader buf = none) :
    (coreStep o s (.client src buf policed now)).observed = s.observed := by
  rcases h with h | h
  · simp [coreStep, onClient, h, Assoc.observed]
  · cases hs : clientSourceAccepted src o.clientIp s.shared.lock <;>
      simp [coreStep, onClient, h, hs, Assoc.observed]

theorem spliceStep_untaken {s : Observed} (policed : Bool) (now : ℕ)
    (h : clientSourceAccepted src o.clientIp s.shared.lock = false ∨
      parseClientHeader buf = none) :
    spliceStep o s (.client src buf policed now) = s := by
  have hrecv : clientRecv o s.shared src buf now = none := by
    rcases h with h | h
    · simp [clientRecv, h]
    · simp [clientRecv, h]
  simp only [spliceStep, hrecv]

theorem coreStep_taken {addr : SocketAddr} (policed : Bool) (now : ℕ)
    (h : Taken o s.shared src buf header addr) :
    (coreStep o s (.client src buf policed now)).observed =
      match upstreamAuthorize o none addr with
      | none => s.observed
      | some dest =>
        ⟨s.shared.accept ⟨src, buf, header, dest⟩ now,
          s.sent ++ (if policed then [] else [Parcel.sending o ⟨src, buf, header, dest⟩]),
          s.delivered⟩ := by
  obtain ⟨hsrc, hparse, hdest⟩ := h
  have hhost : ∀ dest, Parcel.host ⟨src, buf, header, dest⟩ = none := by
    intro dest
    simp [Parcel.host, hdest, TargetAddr.host]
  simp only [coreStep, onClient, hsrc, hparse, hdest, literalDest, upstreamAuthorize,
    Bool.true_eq_false, if_false]
  cases hall : addressAllowed (canonical addr).ip o.policy with
  | false => rfl
  | true =>
    simp only [if_true, Bool.true_eq_false, if_false, forward, hhost]
    cases hauth : o.authorize none (canonical addr).ip (canonical addr).port with
    | false => rfl
    | true =>
      cases policed with
      | false => rfl
      | true => simp [Assoc.observed]

theorem spliceStep_taken {s : Observed} {addr : SocketAddr} (policed : Bool) (now : ℕ)
    (hip : buf[3]? ≠ some atypDomain) (h : Taken o s.shared src buf header addr) :
    spliceStep o s (.client src buf policed now) =
      match upstreamAuthorize o none addr with
      | none =>
        { s with
          shared := { s.shared with
            lock := s.shared.lock.or (some src), activity := s.shared.activity.mark now } }
      | some dest =>
        ⟨s.shared.accept ⟨src, buf, header, dest⟩ now,
          s.sent ++ (if policed then [] else [Parcel.sending o ⟨src, buf, header, dest⟩]),
          s.delivered⟩ := by
  obtain ⟨hsrc, hparse, hdest⟩ := h
  simp only [spliceStep, clientRecv, hsrc, hparse, hdest, hip, Bool.true_eq_false, if_false,
    upstreamAuthorize_canonical]
  cases hauth : upstreamAuthorize o none addr with
  | none => rfl
  | some dest =>
    have hdest' : canonical dest = dest := by
      simp only [upstreamAuthorize] at hauth
      split at hauth
      · cases hauth
      split at hauth
      · cases hauth
      · cases hauth
        exact canonical_idem addr
    simp only [upstreamSendTo, Shared.accept, Parcel.sending, Parcel.payload, hdest']

end Client

/- A reply takes the same way through both, since a contacted remote means that
the endpoint is locked. -/
theorem spliceStep_remote {r : Answer} (o : Options) (policed : Bool) (now : ℕ)
    (hlock : s.shared.contacted.contains (canonical r.src) = true → s.shared.lock.isSome = true) :
    spliceStep o s.observed (.remote r policed now) =
      (coreStep o s (.remote r policed now)).observed := by
  cases hc : s.shared.contacted.contains (canonical r.src) with
  | false =>
    cases hl : s.shared.lock <;>
      simp [spliceStep, upstreamRecv, coreStep, onRemote, Assoc.observed, hc, hl]
  | true =>
    obtain ⟨caddr, hl⟩ := Option.isSome_iff_exists.mp (hlock hc)
    cases policed <;>
      simp [spliceStep, upstreamRecv, clientSend, coreStep, onRemote, Assoc.observed, hc, hl,
        Answer.delivery, udpHeaderTail_canonical]

/-! ### Whole runs -/

theorem step_agrees {o : Options} (hs : Sound o s) (hip : d.IpAddressed)
    (hp : Permitted o s.shared d) : spliceStep o s.observed d = (coreStep o s d).observed := by
  cases d with
  | client src buf policed now =>
    rcases taken_or_not o s.shared src hip with ⟨header, addr, ht⟩ | hnot
    · have hauth := hp ht.1 header addr ht.2.1 ht.2.2
      obtain ⟨dest, hdest⟩ := Option.isSome_iff_exists.mp hauth
      rw [coreStep_taken policed now ht, spliceStep_taken (s := s.observed) policed now hip ht]
      simp only [hdest]
      rfl
    · rw [coreStep_untaken policed now hnot, spliceStep_untaken (s := s.observed) policed now hnot]
  | remote r policed now =>
    refine spliceStep_remote o policed now ?_
    intro hc
    obtain ⟨p, hp, -⟩ := hs.contacted _ hc
    obtain ⟨l, hl, -⟩ := hs.locked p hp
    rw [hl]
    rfl

theorem step_differs {o : Options} (hip : d.IpAddressed) (hp : ¬Permitted o s.shared d) :
    spliceStep o s.observed d ≠ (coreStep o s d).observed := by
  cases d with
  | client src buf policed now =>
    simp only [Permitted, not_forall, Bool.not_eq_true] at hp
    obtain ⟨hsrc, header, addr, hparse, hdest, hauth⟩ := hp
    have ht : Taken o s.shared src buf header addr := ⟨hsrc, hparse, hdest⟩
    have hnone : upstreamAuthorize o none addr = none := by simpa using hauth
    rw [coreStep_taken policed now ht, spliceStep_taken (s := s.observed) policed now hip ht]
    simp only [hnone]
    intro heq
    have hmarks : (s.shared.activity.mark now).marks.length = s.shared.activity.marks.length :=
      congrArg (fun x : Observed => x.shared.activity.marks.length) heq
    simp [ActivityClock.mark] at hmarks
  | remote => exact absurd trivial hp

/-- The pass-through behaves as the core relay with a forward-all plugin exactly as long as every
datagram its client leg takes goes to a destination that the deny policy and the rules let
through. The behaviour includes the history of activity marks: it is by the mark of a refused
datagram that the only-if half tells the two apart. -/
theorem splice_agrees_exactly (o : Options) (ds : List Datagram)
    (hip : ∀ d ∈ ds, d.IpAddressed) :
    (∀ es, es <+: ds → spliceRun o es = (coreRun o es).observed) ↔
      ∀ es d, es ++ [d] <+: ds → Permitted o (coreRun o es).shared d := by
  have hmem : ∀ es, es <+: ds → ∀ d ∈ es, d.IpAddressed := fun es hes d hd =>
    hip d (hes.subset hd)
  constructor
  · intro h es d hd
    by_contra hp
    have hshort : es <+: ds := (List.prefix_append es [d]).trans hd
    have hbefore := h es hshort
    have hafter := h (es ++ [d]) hd
    rw [spliceRun_snoc, coreRun_snoc, hbefore] at hafter
    exact step_differs (hmem _ hd d (by simp)) hp hafter
  · intro h es
    induction es using List.reverseRecOn with
    | nil =>
      intro _
      rfl
    | append_singleton es d ih =>
      intro hes
      have hshort : es <+: ds := (List.prefix_append es [d]).trans hes
      have hreach := (coreRun_reachable (o := o) es (hmem es hshort)).1
      rw [spliceRun_snoc, coreRun_snoc, ih hshort]
      exact step_agrees (Sound.reachable hreach) (hmem _ hes d (by simp)) (h es d hes)

/- Two sockets of one client: the first asks for a destination the rules deny, the
second for one they pass. -/
def onlyDns : Options := { openOptions with authorize := fun _ ip _ => ip == .v4 0x08080808 }

def deniedFirst : List Datagram :=
  [.client (.v4 0x0a000001 4000) [0, 0, 0, 1, 9, 9, 9, 9, 0, 53, 7] false 1,
    .client (.v4 0x0a000001 5000) [0, 0, 0, 1, 8, 8, 8, 8, 0, 53, 8] false 2]

/- A query, its answer, a second query to the same resolver and an answer from a stranger. -/
def exchange : List Datagram :=
  [.client (.v4 0x0a000001 4000) [0, 0, 0, 1, 8, 8, 8, 8, 0, 53, 7] false 1,
    .remote ⟨.v4 0x08080808 53, [9]⟩ false 2,
    .client (.v4 0x0a000001 4000) [0, 0, 0, 1, 8, 8, 8, 8, 0, 53, 8] false 3,
    .remote ⟨.v4 0x09090909 53, [9]⟩ false 4]

theorem splice_agrees_exactly_query :
    (∀ es, es <+: exchange → spliceRun onlyDns es = (coreRun onlyDns es).observed) ∧
      (spliceRun onlyDns exchange).sent = [⟨[7], .v4 0x08080808 53⟩, ⟨[8], .v4 0x08080808 53⟩] ∧
      (spliceRun onlyDns exchange).delivered =
        [⟨[0, 0, 0, 1, 8, 8, 8, 8, 0, 53, 9], .v4 0x0a000001 4000⟩] := by
  have hip : ∀ d ∈ exchange, d.IpAddressed := by simp [exchange, Datagram.IpAddressed, atypDomain]
  refine ⟨(splice_agrees_exactly onlyDns exchange hip).mpr ?_, rfl, rfl⟩
  intro es d hd
  have hmem : d ∈ exchange := hd.subset (by simp)
  simp only [exchange, List.mem_cons, List.not_mem_nil, or_false] at hmem
  rcases hmem with rfl | rfl | rfl | rfl
  · rintro - header addr hparse hdest
    cases hparse
    cases hdest
    rfl
  · trivial
  · rintro - header addr hparse hdest
    cases hparse
    cases hdest
    rfl
  · trivial

/- The core relay sends the second query; the pass-through has locked the endpoint to the first
socket and drops the second. -/
theorem splice_locks_on_denied_datagram :
    (coreRun onlyDns deniedFirst).sent = [⟨[8], .v4 0x08080808 53⟩] ∧
      (coreRun onlyDns deniedFirst).shared.lock = some (.v4 0x0a000001 5000) ∧
      (coreRun onlyDns deniedFirst).shared.activity.marks = [2] ∧
      (spliceRun onlyDns deniedFirst).sent = [] ∧
      (spliceRun onlyDns deniedFirst).shared.lock = some (.v4 0x0a000001 4000) ∧
      (spliceRun onlyDns deniedFirst).shared.activity.marks = [1] :=
  ⟨rfl, rfl, rfl, rfl, rfl, rfl⟩

end Alighieri.Relay.Udp
