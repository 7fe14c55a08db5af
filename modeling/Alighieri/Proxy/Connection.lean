import Alighieri.Acl
import Alighieri.Relay.Splice

/-!
# One client connection (connection.rs:96-538, 757-777, 834-1090, 1120-1137)

`handle` takes a connection through admission, method negotiation, authentication and the request
to a relay. What the proxy does not decide itself comes from a `World`: the client's bytes, the
reads that time out and the writes that fail, the credential check, and the answers of the
resolver, the RDP agent and the network. The result is the list of actions and how it ended.
-/

namespace Alighieri.Proxy
open Net Socks5 Dns Acl

structure Config where
  egress : Egress
  socksMethods : List AuthKind
  rules : RuleSet
  dns : DnsPolicy
  strictReply : Bool

/- `peer` is the client and `proxy` the accepting address (`local`);
`clientBucket` says whether the shared per-client bucket exists. -/
structure Connection where
  config : Config
  peer : SocketAddr
  proxy : SocketAddr
  clientBucket : Bool

inductive AuthOutcome where
  | allowed
  | denied
  | timedOut
  deriving DecidableEq, Repr

/- The buckets of a `Throttle`; a flow has to satisfy every one of them. -/
inductive Bucket where
  | client
  | rule (limit : RateLimit)
  deriving DecidableEq, Repr

/- What a handler does: the writes to its client, the credential checks, and
everything that reaches out. -/
inductive Action where
  | selectMethod (method : Method)
  | verify (creds : UserPassCredentials)
  | authStatus (success : Bool)
  | reply (code : Reply)
  | connect (target : SocketAddr)
  | openFrame (address : SocketAddr)
  | relay (target : SocketAddr) (throttle : List Bucket)
  | bindRelay (ip : IpAddr)
  | bindOutbound
  | associate (options : Relay.Udp.Options)

/- A failed operation of the RDP connector with what `rdp_io_reply` makes of it. -/
structure RdpFailure where
  code : Reply
  error : Error

/- What an RDP connector answers. `opened n` belongs to the `n`-th candidate, and
`retry n` is `can_retry` after its failure. -/
structure RdpWorld where
  resolved : Text → ℕ → Except RdpFailure (List SocketAddr)
  opened : ℕ → SocketAddr → Except RdpFailure SocketAddr
  retry : ℕ → Bool

/- The three reads may time out and the three writes may fail. `rdp` is `none`
when the transport is not initialised, `hasRdp` is the build's feature set. -/
structure World where
  input : Bytes
  greetingLate : Bool
  userpassLate : Bool
  requestLate : Bool
  methodWritten : Except Error Unit
  statusWritten : Except Error Unit
  replyWritten : Except Error Unit
  auth : UserPassCredentials → AuthOutcome
  answer : Text → ℕ → Dns.Answer
  connected : ℕ → SocketAddr → Except Error SocketAddr
  hasRdp : Bool
  rdp : Option RdpWorld
  flowAllowed : Bool
  relayBound : Except Error SocketAddr
  outboundBound : Except Error Bool

/-! ### Handlers as scripts -/

/- The actions of a handler so far and its result. -/
structure Script (α : Type) where
  actions : List Action
  result : Except Error α

namespace Script

variable {α β : Type}

/- `?`: an error ends the script with the actions done so far. -/
def andThen (x : Script α) (f : α → Script β) : Script β :=
  match x.result with
  | .error e => ⟨x.actions, .error e⟩
  | .ok a => ⟨x.actions ++ (f a).actions, (f a).result⟩

instance : Monad Script where
  pure a := ⟨[], .ok a⟩
  bind := andThen

def fail (e : Error) : Script α := ⟨[], .error e⟩

def lift (r : Except Error α) : Script α := ⟨[], r⟩

def act (a : Action) (r : Except Error α) : Script α := ⟨[a], r⟩

theorem actions_bind (x : Script α) (f : α → Script β) :
    (x >>= f).actions = x.actions ++
      match x.result with
      | .error _ => []
      | .ok v => (f v).actions := by
  show (andThen x f).actions = _
  unfold andThen
  cases x.result with
  | error e => exact (List.append_nil _).symm
  | ok v => rfl

theorem mem_bind_left {x : Script α} (f : α → Script β) {a : Action} (h : a ∈ x.actions) :
    a ∈ (x >>= f).actions := by
  rw [actions_bind]
  exact List.mem_append_left _ h

theorem actions_bind_ok {x : Script α} {f : α → Script β} {v : α} (h : x.result = .ok v) :
    (x >>= f).actions = x.actions ++ (f v).actions := by
  rw [actions_bind, h]

def All (P : Action → Prop) (x : Script α) : Prop := ∀ a ∈ x.actions, P a

variable {P : Action → Prop}

theorem All.bind {x : Script α} {f : α → Script β} (hx : x.All P)
    (hf : ∀ v, x.result = .ok v → (f v).All P) : (x >>= f).All P := by
  intro a ha
  rw [actions_bind] at ha
  rcases List.mem_append.mp ha with ha | ha
  · exact hx a ha
  · cases hr : x.result with
    | error e =>
      rw [hr] at ha
      cases ha
    | ok v =>
      rw [hr] at ha
      exact hf v hr a ha

theorem All.pure (v : α) : (Pure.pure v : Script α).All P := fun _ ha => nomatch ha

theorem All.fail (e : Error) : (Script.fail e : Script α).All P := fun _ ha => nomatch ha

theorem All.lift (r : Except Error α) : (Script.lift r).All P := fun _ ha => nomatch ha

theorem All.act {a : Action} (r : Except Error α) (h : P a) : (Script.act a r).All P := by
  intro b hb
  rw [List.mem_singleton.mp hb]
  exact h

theorem result_bind_ok {x : Script α} {f : α → Script β} {v : β}
    (h : (x >>= f).result = .ok v) : ∃ u, x.result = .ok u ∧ (f u).result = .ok v := by
  have hbind : (andThen x f).result = .ok v := h
  unfold andThen at hbind
  cases hx : x.result with
  | error e =>
    simp only [hx] at hbind
    cases hbind
  | ok u =>
    simp only [hx] at hbind
    exact ⟨u, rfl, hbind⟩

@[simp] theorem actions_pure (v : α) : (pure v : Script α).actions = [] := rfl

end Script

open Script

/-! ### Rule contexts -/

namespace Connection

def clientContext (c : Connection) : ClientContext :=
  ⟨toCanonical c.peer.ip, c.peer.port, toCanonical c.proxy.ip, c.proxy.port⟩

def connectContext (c : Connection) (method : AuthKind) (host : Option Text)
    (target : SocketAddr) : SocksContext :=
  ⟨toCanonical c.peer.ip, c.peer.port, host, toCanonical target.ip, target.port, .connect, .tcp,
    method⟩

def authorizeConnectTarget (c : Connection) (method : AuthKind) (host : Option Text)
    (target : SocketAddr) : RuleDecision :=
  c.config.rules.evaluateSocksDetail (c.connectContext method host target)

/- The closure `authorize` of `handle_udp_associate`. -/
def authorizeDatagram (c : Connection) (method : AuthKind) (host : Option Text) (ip : IpAddr)
    (port : ℕ) : Bool :=
  (c.config.rules.evaluateSocksDetail
    (udpContext (toCanonical c.peer.ip) c.peer.port method host (toCanonical ip) port)).verdict ==
      .pass

/- `Connection::throttle`: no bucket at all is no throttle. A configured rate is
never degenerate, so its bucket exists. -/
def throttle (c : Connection) (bandwidth : Option RateLimit) : List Bucket :=
  (if c.clientBucket then [.client] else []) ++ (bandwidth.map Bucket.rule).toList

end Connection

/-! ### The handshake -/

def within {α : Type} (late : Bool) (result : Except Error α) : Script α :=
  .lift (if late then .error .timeout else result)

/- `write_reply(code).await?; return Err(e)`. -/
def World.refuse (w : World) (code : Reply) (e : Error) : Script Unit := do
  act (.reply code) w.replyWritten
  fail e

def negotiate (c : Connection) (w : World) : Script (AuthKind × Bytes) := do
  let (greeting, rest) ← within w.greetingLate (readGreeting w.input)
  match c.config.socksMethods.find? fun m => greeting.methods.contains (toMethod m) with
  | none => do
    act (.selectMethod .noAcceptable) w.methodWritten
    fail .authFailed
  | some method => do
    act (.selectMethod (toMethod method)) w.methodWritten
    pure (method, rest)

def authenticate (w : World) (method : AuthKind) (input : Bytes) : Script Bytes :=
  if toMethod method = .userPass then do
    let (creds, rest) ← within w.userpassLate (readUserpass input)
    let outcome ← act (.verify creds) (.ok (w.auth creds))
    match outcome with
    | .allowed => do
      act (.authStatus true) w.statusWritten
      pure rest
    | .denied => do
      act (.authStatus false) w.statusWritten
      fail .authFailed
    | .timedOut => do
      act (.authStatus false) w.statusWritten
      fail .timeout
  else pure input

/-! ### CONNECT -/

structure Attempt where
  action : Option Action
  failure : Option (Reply × Error)

structure Tried where
  actions : List Action
  connected : Option (SocketAddr × RuleDecision)
  lastError : Option (Reply × Error)

/- The candidate loop of `handle_connect` and `handle_connect_rdp`; `again n` says whether it goes
on after the failure of the `n`-th candidate. -/
def tryCandidates (decision : SocketAddr → RuleDecision) (attempt : ℕ → SocketAddr → Attempt)
    (again : ℕ → Bool) : ℕ → List SocketAddr → Tried
  | _, [] => ⟨[], none, none⟩
  | n, target :: rest =>
    if (decision target).verdict ≠ .pass then tryCandidates decision attempt again (n + 1) rest
    else
      match (attempt n target).failure with
      | none => ⟨(attempt n target).action.toList, some (target, decision target), none⟩
      | some e =>
        if again n then
          let later := tryCandidates decision attempt again (n + 1) rest
          ⟨(attempt n target).action.toList ++ later.actions, later.connected,
            later.lastError.or (some e)⟩
        else ⟨(attempt n target).action.toList, none, some e⟩

/- What follows the loop, up to the relay. A plugin may still end the flow. -/
def finishConnect (c : Connection) (w : World) (t : Tried) : Script Unit := do
  mk t.actions (.ok ())
  match t.connected, t.lastError with
  | some (target, decision), _ => do
    act (.reply .succeeded) w.replyWritten
    if w.flowAllowed then
      act (.relay target (c.throttle decision.bandwidth)) (.ok ())
    else pure ()
  | none, some (code, e) => w.refuse code e
  | none, none => w.refuse .connectionNotAllowed .accessDenied

def Action.dialAddress : Action → Option SocketAddr
  | .connect target => some target
  | .openFrame address => some address
  | _ => none

def dialled (actions : List Action) : List SocketAddr := actions.filterMap Action.dialAddress

@[simp] theorem dialled_nil : dialled [] = [] := rfl

@[simp] theorem dialled_append (xs ys : List Action) :
    dialled (xs ++ ys) = dialled xs ++ dialled ys :=
  List.filterMap_append

@[simp] theorem dialled_refuse (w : World) (code : Reply) (e : Error) :
    dialled (w.refuse code e).actions = [] := by
  cases hw : w.replyWritten <;> simp [World.refuse, actions_bind, hw, act] <;> rfl

theorem dialled_finishConnect (c : Connection) (w : World) (t : Tried) :
    dialled (finishConnect c w t).actions = dialled t.actions := by
  simp only [finishConnect, actions_bind, dialled_append]
  cases hc : t.connected with
  | some =>
    cases hw : w.replyWritten <;> cases hf : w.flowAllowed <;>
      simp [actions_bind, act, dialled, Action.dialAddress]
  | none => cases t.lastError <;> simp

/- `dns.try_all`, or the first one only. -/
def candidates (policy : DnsPolicy) (targets : List SocketAddr) : List SocketAddr :=
  if policy.tryAll then targets else targets.take 1

/- `connect_remote` on a candidate; an error is answered by its `to_reply`. -/
def attemptDirect (w : World) (n : ℕ) (target : SocketAddr) : Attempt where
  action := some (.connect target)
  failure :=
    match w.connected n target with
    | .ok _ => none
    | .error e => some (e.toReply, e)

def handleConnectDirect (c : Connection) (w : World) (request : Request) (method : AuthKind) :
    Script Unit :=
  match resolveAll request.dest (w.answer (request.dest.host.getD []) request.dest.port)
      c.config.dns with
  | .error e => w.refuse .hostUnreachable e
  | .ok [] =>
    w.refuse .hostUnreachable (.io .addrNotAvailable "resolution returned no allowed addresses")
  | .ok targets =>
    finishConnect c w (tryCandidates (c.authorizeConnectTarget method request.dest.host)
      (attemptDirect w) (fun _ => c.config.dns.tryAll) 0 (candidates c.config.dns targets))

/- What `connector.resolve` and `apply_policy` leave of the destination, with the
candidates a `ResolvedTarget` holds. -/
def resolveRdp (c : Connection) (rdp : RdpWorld) :
    TargetAddr → Except RdpFailure (Option (List SocketAddr) × List SocketAddr)
  | .ip addr => .ok (none, applyPolicy [addr] c.config.dns)
  | .domain host port =>
    (rdp.resolved host port).map fun found => (some found, applyPolicy found c.config.dns)

/- `open_ip`, or `ResolvedTarget::open`, which refuses an address the agent did
not name. -/
def attemptRdp (rdp : RdpWorld) (resolution : Option (List SocketAddr)) (n : ℕ)
    (target : SocketAddr) : Attempt :=
  if resolution.all fun found => found.contains (canonicalizeAddress target) then
    { action := some (.openFrame (canonicalizeAddress target))
      failure :=
        match rdp.opened n target with
        | .ok _ => none
        | .error e => some (e.code, e.error) }
  else
    ⟨none, some (.generalFailure, .io .invalidData "address was not returned by remote resolution")⟩

def handleConnectRdp (c : Connection) (w : World) (rdp : RdpWorld) (request : Request)
    (method : AuthKind) : Script Unit :=
  match resolveRdp c rdp request.dest with
  | .error e => w.refuse e.code e.error
  | .ok (_, []) =>
    w.refuse .hostUnreachable
      (.io .addrNotAvailable "remote resolution returned no policy-allowed addresses")
  | .ok (resolution, targets) =>
    finishConnect c w (tryCandidates (c.authorizeConnectTarget method request.dest.host)
      (attemptRdp rdp resolution) (fun n => c.config.dns.tryAll && rdp.retry n) 0
      (candidates c.config.dns targets))

def handleConnect (c : Connection) (w : World) (request : Request) (method : AuthKind) :
    Script Unit :=
  match c.config.egress with
  | .direct => handleConnectDirect c w request method
  | .rdp =>
    if w.hasRdp then
      match w.rdp with
      | some rdp => handleConnectRdp c w rdp request method
      | none =>
        w.refuse .networkUnreachable (.io .notConnected "RDP transport is not initialized")
    else w.refuse .generalFailure (.config "RDP egress is unavailable in this build")

/-! ### UDP ASSOCIATE -/

def requestedUdpEndpoint (dest : TargetAddr) (clientIp : IpAddr) : Option SocketAddr :=
  match dest with
  | .domain _ _ => none
  | .ip addr =>
    if addr.port = 0 then none
    else if isUnspecified (toCanonical addr.ip) ∨ toCanonical addr.ip = toCanonical clientIp then
      some (setIp addr (toCanonical clientIp))
    else none

def udpClientFacingBindIp (proxy peer : IpAddr) : Option IpAddr :=
  if (toCanonical proxy).isV6 = (toCanonical peer).isV6 then some (toCanonical proxy) else none

def associateOptions (c : Connection) (dest : TargetAddr) (method : AuthKind)
    (outboundDual : Bool) : Relay.Udp.Options where
  clientIp := c.peer.ip
  clientEndpoint := requestedUdpEndpoint dest c.peer.ip
  policy := c.config.dns
  outboundDual := outboundDual
  strictReply := c.config.strictReply
  authorize := c.authorizeDatagram method

/- `Err(e) => { write_reply(GeneralFailure).await?; return Err(e) }`. -/
def bound {α : Type} (w : World) (a : Action) (r : Except Error α) : Script α :=
  match r with
  | .ok v => .act a (.ok v)
  | .error e => do
    act a (.ok ())
    act (.reply .generalFailure) w.replyWritten
    fail e

def handleUdpAssociate (c : Connection) (w : World) (request : Request) (method : AuthKind) :
    Script Unit :=
  if c.config.egress = .rdp then w.refuse .commandNotSupported .commandNotSupported
  else if c.config.rules.udpAssociateReachable (toCanonical c.peer.ip) c.peer.port method = false
  then w.refuse .connectionNotAllowed .accessDenied
  else
    match udpClientFacingBindIp c.proxy.ip c.peer.ip with
    | none =>
      w.refuse .generalFailure (.io .addrNotAvailable
        "UDP ASSOCIATE client family does not match the listening socket")
    | some ip => do
      let _ ← bound w (.bindRelay ip) w.relayBound
      let dual ← bound w .bindOutbound w.outboundBound
      act (.reply .succeeded) w.replyWritten
      act (.associate (associateOptions c request.dest method dual)) (.ok ())

/- A failed request is answered only when its address type is unknown. -/
def requestFailed (w : World) (e : Error) : Script Unit :=
  match e with
  | .io .unsupported _ => w.refuse e.toReply e
  | _ => .fail e

def serve (c : Connection) (w : World) (method : AuthKind) (request : Request) : Script Unit :=
  match request.command with
  | .connect => handleConnect c w request method
  | .udpAssociate => handleUdpAssociate c w request method
  | .bind => w.refuse .commandNotSupported .commandNotSupported

def handle (c : Connection) (w : World) : Script Unit :=
  if (c.config.rules.evaluateClientDetail c.clientContext).verdict ≠ .pass then
    .fail .accessDenied
  else do
    let (method, rest) ← negotiate c w
    let rest ← authenticate w method rest
    match (within w.requestLate (readRequest rest)).result with
    | .error e => requestFailed w e
    | .ok (request, _) => serve c w method request

end Alighieri.Proxy
