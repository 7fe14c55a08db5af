import Alighieri.Rdp.Endpoint

/-!
# The agent end (mux.rs:1837-2550)

The handlers of `drive_agent` are functions on the entry of one stream. `operations` holds the
running resolutions and connects, `relays` the streams whose relay task has not been joined yet,
`highest` the largest stream identifier the peer has used. `started` and `connects` are histories:
the identifiers for which a stream was created, the connects that were started.
-/

namespace Alighieri.Rdp
open Net

/- The part of `AgentPolicy` that decides about addresses. -/
structure AgentPolicy where
  denyLoopback : Bool
  denyPrivate : Bool
  denyLinkLocal : Bool
  deriving DecidableEq, Repr

def agentAddressAllowed (policy : AgentPolicy) (ip : IpAddr) : Bool :=
  !(policy.denyLoopback && isLoopback ip) &&
  !(policy.denyLinkLocal &&
    match ip with
    | .v4 ip => isLinkLocalV4 ip
    | .v6 ip => isUnicastLinkLocal ip) &&
  !(policy.denyPrivate &&
    match ip with
    | .v4 ip => isPrivateV4 ip
    | .v6 ip => isUniqueLocal ip)

/- The kinds of `io::Error` that `open_error_code` tells apart. -/
inductive IoKind where
  | connectionRefused | timedOut | networkUnreachable | notFound | addrNotAvailable
  | hostUnreachable | unsupported | outOfMemory | permissionDenied | other
  deriving DecidableEq, Repr

structure IoFault where
  kind : IoKind
  message : Text
  deriving DecidableEq, Repr

def openErrorCode (e : IoFault) : OpenErrorCode :=
  match e.kind with
  | .connectionRefused => .connectionRefused
  | .timedOut => .timeout
  | .networkUnreachable => .networkUnreachable
  | .notFound | .addrNotAvailable | .hostUnreachable => .hostUnreachable
  | .unsupported => .addressTypeUnsupported
  | .outOfMemory => .resourceLimit
  | .permissionDenied => .policyDenied
  | .other => .general

def resolveErrorCode (e : IoFault) : OpenErrorCode :=
  match openErrorCode e with
  | .general => .hostUnreachable
  | code => code

def truncateUtf8 (maximum : ℕ) : Text → Text
  | [] => []
  | c :: cs =>
    if c.utf8Size ≤ maximum then c :: truncateUtf8 (maximum - c.utf8Size) cs else []

def safeDiagnostic (value : Text) (maximum : ℕ) : Text :=
  truncateUtf8 maximum (value.map fun c => if isControl c then ' ' else c)

def openErrorFrame (id : ℕ) (code : OpenErrorCode) (diagnostic : Text) : Frame :=
  .openError id code (safeDiagnostic diagnostic maxDiagnosticLen)

inductive AgentStreamState where
  | resolving
  | resolved (candidates : List SocketAddr)
  | opening (candidates : Option (List SocketAddr))
  | opened
  | cancelled
  | closing
  deriving DecidableEq, Repr

inductive Operation where
  | resolve (id : ℕ) (hostname : Text) (port : ℕ)
  | connect (id : ℕ) (address : SocketAddr)
  deriving DecidableEq, Repr

def Operation.id : Operation → ℕ
  | .resolve id _ _ => id
  | .connect id _ => id

/- `highest` and `spawned` are what the handler leaves of `highest_stream_id` and
what it adds to `operations`; `created` says that it inserted a new stream. -/
structure AgentHandled where
  entry : Entry AgentStreamState
  await : Await
  highest : ℕ
  spawned : Option Operation
  created : Bool

/- What the handlers read besides the entry: `full` is
`streams.len() >= max_streams`, `busy` is
`active_relays + operations.len() >= max_streams`. -/
structure AgentView where
  limits : NegotiatedLimits
  policy : AgentPolicy
  full : Bool
  busy : Bool
  highest : ℕ

def registerPeerStreamId (id highest : ℕ) : Except MuxError ℕ :=
  if id ≤ highest then .error (protocolError "peer reused or reordered a stream ID") else .ok id

def agentResolve (v : AgentView) (x : Entry AgentStreamState) (id : ℕ) (port : ℕ)
    (hostname : Text) : Except MuxError AgentHandled := do
  validateLocalStreamId id
  if x.state.isSome then .error (protocolError "duplicate peer stream ID")
  else
    let highest ← registerPeerStreamId id v.highest
    if v.full || v.busy then
      .ok ⟨x, .ordered (openErrorFrame id .resourceLimit "agent stream limit reached".toList) .done,
        highest, none, false⟩
    else .ok ⟨{ x with state := some .resolving }, .idle, highest,
      some (.resolve id hostname port), true⟩

/- `OPEN` after the look at the state: `kept` is the state to restore on a refusal
and `candidates` what `Opening` carries. -/
def agentConnect (v : AgentView) (x : Entry AgentStreamState) (id : ℕ)
    (address : SocketAddr) (highest : ℕ) (candidates : Option (List SocketAddr)) :
    AgentHandled :=
  let restored := { x with state := candidates.map .resolved }
  if v.busy then
    ⟨restored, .ordered (openErrorFrame id .resourceLimit "agent worker limit reached".toList)
      .done, highest, none, false⟩
  else if !agentAddressAllowed v.policy address.ip then
    ⟨restored, .ordered (openErrorFrame id .policyDenied
      "address denied by remote agent policy".toList) .done, highest, none, false⟩
  else ⟨{ x with state := some (.opening candidates) }, .idle, highest,
    some (.connect id address), candidates.isNone⟩

def agentOpen (v : AgentView) (x : Entry AgentStreamState) (id : ℕ)
    (address : SocketAddr) : Except MuxError AgentHandled := do
  validateLocalStreamId id
  let address := canonicalizeAddress address
  match x.state with
  | some (.resolved candidates) =>
    if address ∈ candidates then
      .ok (agentConnect v x id address v.highest (some candidates))
    else .ok ⟨x, .ordered (openErrorFrame id .policyDenied
      "OPEN address was not in RESOLVE_OK".toList) .done, v.highest, none, false⟩
  | none =>
    let highest ← registerPeerStreamId id v.highest
    if v.full then
      .ok ⟨x, .ordered (openErrorFrame id .resourceLimit "agent stream limit reached".toList) .done,
        highest, none, false⟩
    else .ok (agentConnect v x id address highest none)
  | some _ => .error (protocolError "OPEN in the wrong stream state")

def AgentStreamState.standing : Option AgentStreamState → Standing
  | some .opened => .takes
  | some .closing => .ignores
  | some _ => .early
  | none => .unknown

def agentClose (v : AgentView) (x : Entry AgentStreamState) (id : ℕ)
    (reason : CloseReason) : Except MuxError AgentHandled := do
  validateLocalStreamId id
  let reply := Await.ordered (.close id .normal) .done
  match x.state with
  | none =>
    -- a CLOSE that crossed a terminal OPEN_ERROR is acknowledged
    if id ≤ v.highest then .ok ⟨x, reply, v.highest, none, false⟩
    else .error (protocolError "CLOSE for an unknown stream")
  | some .closing => .ok ⟨{ x with state := none }, .idle, v.highest, none, false⟩
  | some .opened =>
    .ok ⟨⟨none, x.stream.map (·.remoteClose reason)⟩, .closeGate id .normal, v.highest, none, false⟩
  | some .resolving => .ok ⟨{ x with state := some .cancelled }, reply, v.highest, none, false⟩
  | some (.opening _) => .ok ⟨{ x with state := some .cancelled }, reply, v.highest, none, false⟩
  | some (.resolved _) => .ok ⟨{ x with state := none }, reply, v.highest, none, false⟩
  | some .cancelled => .ok ⟨x, .idle, v.highest, none, false⟩

/- `handle_agent_frame` for the frames of one stream. -/
def handleAgentFrame (v : AgentView) (x : Entry AgentStreamState) :
    Frame → Except MuxError AgentHandled
  | .resolve id port hostname => agentResolve v x id port hostname
  | .openTo id address => agentOpen v x id address
  | .data id payload => do
    let await ← handleData v.limits (AgentStreamState.standing x.state) id payload
    .ok ⟨x, await, v.highest, none, false⟩
  | .shutdownWrite _ => do
    let stream ← handleShutdownWrite (AgentStreamState.standing x.state) x.stream
    .ok ⟨{ x with stream := stream }, .idle, v.highest, none, false⟩
  | .windowUpdate _ credit => do
    let stream ← handleWindowUpdate credit (AgentStreamState.standing x.state) x.stream
    .ok ⟨{ x with stream := stream }, .idle, v.highest, none, false⟩
  | .close id reason => agentClose v x id reason
  | _ => .error (protocolError "unexpected peer message for agent role")

/- The loop of `resolve_remote` over the answer of the system resolver. -/
def collectAddresses (policy : AgentPolicy) : List SocketAddr → List SocketAddr → List SocketAddr
  | result, [] => result
  | result, raw :: rest =>
    let address := canonicalizeAddress raw
    if agentAddressAllowed policy address.ip && !result.contains address then
      if (result ++ [address]).length = maxResolveAddresses then result ++ [address]
      else collectAddresses policy (result ++ [address]) rest
    else collectAddresses policy result rest

/- `(hostname, port).to_socket_addrs()` gives every address that port. -/
def withPort (port : ℕ) : SocketAddr → SocketAddr
  | .v4 ip _ => .v4 ip port
  | .v6 ip _ flowinfo scope => .v6 ip port flowinfo scope

def resolveRemote (policy : AgentPolicy) (port : ℕ) (answer : List SocketAddr) :
    List SocketAddr :=
  collectAddresses policy [] (answer.map (withPort port))

theorem collectAddresses_port {policy : AgentPolicy} {port : ℕ} {result raw : List SocketAddr}
    (hr : ∀ a ∈ result, a.port = port) (hw : ∀ a ∈ raw, a.port = port) :
    ∀ a ∈ collectAddresses policy result raw, a.port = port := by
  induction raw generalizing result with
  | nil => exact hr
  | cons b rest ih =>
    have hb : b.port = port := hw b (List.mem_cons_self)
    have hrest : ∀ a ∈ rest, a.port = port := fun a ha => hw a (List.mem_cons_of_mem _ ha)
    have hsnoc : ∀ a ∈ result ++ [canonicalizeAddress b], a.port = port := by
      intro a ha
      rcases List.mem_append.mp ha with ha | ha
      · exact hr a ha
      · rw [List.mem_singleton.mp ha, canonicalizeAddress_port]
        exact hb
    simp only [collectAddresses]
    split
    · split
      · exact hsnoc
      · exact ih hsnoc hrest
    · exact ih hr hrest

theorem resolveRemote_port (policy : AgentPolicy) (port : ℕ) (answer : List SocketAddr) :
    ∀ a ∈ resolveRemote policy port answer, a.port = port := by
  refine collectAddresses_port (by simp) fun a ha => ?_
  obtain ⟨b, -, rfl⟩ := List.mem_map.mp ha
  cases b <;> rfl

/- What the resolver or the connect of an operation answers; a connected socket
answers with its local address. -/
inductive Answer where
  | lookup (result : Except IoFault (List SocketAddr))
  | socket (result : Except IoFault (Except IoFault SocketAddr))

/- A finished operation as `operations.join_next()` yields it. -/
inductive AgentOperation where
  | resolved (id : ℕ) (result : Except IoFault (List SocketAddr))
  | opened (id : ℕ) (result : Except IoFault (Except IoFault SocketAddr))

def Operation.finish (policy : AgentPolicy) : Operation → Answer → Option AgentOperation
  | .resolve id _ port, .lookup result => some (.resolved id (result.map (resolveRemote policy port)))
  | .connect id _, .socket result => some (.opened id result)
  | _, _ => none

/- `finish_agent_operation`. The states `Resolved` and `Open` are inserted once
RESOLVE_OK or OPEN_OK is queued, which is what `Next` stands for. -/
def finishAgentOperation (x : Entry AgentStreamState) :
    AgentOperation → Except MuxError (Entry AgentStreamState × Await)
  | .resolved id result =>
    match x.state with
    | none => .ok (x, .idle)
    | some .cancelled => .ok ({ x with state := none }, .idle)
    | some .resolving =>
      match result with
      | .ok [] => .ok ({ x with state := none }, .ordered (openErrorFrame id .hostUnreachable
          "remote resolution returned no addresses".toList) .done)
      | .ok addresses => .ok ({ x with state := none },
          .ordered (.resolveOk id addresses) (.resolved id addresses))
      | .error e => .ok ({ x with state := none },
          .ordered (openErrorFrame id (resolveErrorCode e) e.message) .done)
    | some _ => .error (protocolError "resolution completed in the wrong state")
  | .opened id result =>
    match x.state with
    | none => .ok (x, .idle)
    | some .cancelled => .ok ({ x with state := none }, .idle)
    | some (.opening candidates) =>
      let restored := { x with state := candidates.map .resolved }
      match result with
      | .ok (.ok localAddr) => .ok ({ x with state := none },
          .ordered (.openOk id (canonicalizeAddress localAddr)) (.opened id))
      | .ok (.error e) => .ok (restored, .ordered (openErrorFrame id .general
          ("query remote bound address: ".toList ++ e.message)) .done)
      | .error e => .ok (restored,
          .ordered (openErrorFrame id (openErrorCode e) e.message) .done)
    | some _ => .error (protocolError "connect completed in the wrong state")

def agentWorkerEvent (x : Entry AgentStreamState) : WorkerEvent → Entry AgentStreamState
  | .localCloseQueued _ =>
    if x.state = some .opened then
      ⟨some .closing, x.stream.map ({ · with aborted := true })⟩
    else x
  | .stopped _ =>
    if x.state = some .opened then ⟨none, x.stream.map ({ · with aborted := true })⟩ else x

structure Agent where
  ep : Endpoint AgentStreamState
  operations : List Operation
  relays : List ℕ
  highest : ℕ
  created : List ℕ
  started : List Operation

def Agent.start : Agent where
  ep := .start
  operations := []
  relays := []
  highest := 0
  created := []
  started := []

inductive AgentAct where
  | stream (id : ℕ) (a : StreamAct)
  | pick (raced : Bool)
  | deliver
  | frame
  | event
  | finish (i : ℕ) (answer : Answer)
  | joinRelay (id : ℕ)
  | keepalive (nonce : ℕ)
  | resume
  | fail (error : MuxError)
  | teardown (id : ℕ)

namespace Agent

def lift (a : Agent) : Option (Endpoint AgentStreamState) → Option Agent :=
  Option.map fun ep => { a with ep := ep }

def view (limits : NegotiatedLimits) (policy : AgentPolicy) (a : Agent) : AgentView where
  limits := limits
  policy := policy
  full := decide (limits.maxStreams ≤ a.ep.streams.size)
  busy := decide (limits.maxStreams ≤ a.relays.length + a.operations.length)
  highest := a.highest

/- The effect of a frame's handler on the driver, or the end of the session. -/
def settle (a : Agent) (id : ℕ) : Except MuxError AgentHandled → Agent
  | .ok h => { a with
      ep := { a.ep.setEntry id h.entry with await := h.await }
      operations := a.operations ++ h.spawned.toList
      highest := h.highest
      created := a.created ++ (if h.created then [id] else [])
      started := a.started ++ h.spawned.toList }
  | .error e => { a with ep := a.ep.fail e }

def frame (limits : NegotiatedLimits) (policy : AgentPolicy) (a : Agent) : Option Agent :=
  if a.ep.ready then
    match a.ep.frames with
    | [] => none
    | f :: rest =>
      let a' := { a with ep := { a.ep with frames := rest } }
      match f with
      | .ping nonce => some { a' with ep := a'.ep.onPing nonce }
      | .pong nonce => some { a' with ep := a'.ep.onPong nonce }
      | f => some (a'.settle f.streamId
          (handleAgentFrame (a.view limits policy) (a.ep.entry f.streamId) f))
  else none

def event (a : Agent) : Option Agent :=
  if a.ep.ready then
    match a.ep.events with
    | [] => none
    | w :: rest => some { a with
        ep := { a.ep.setEntry w.id (agentWorkerEvent (a.ep.entry w.id) w) with events := rest } }
  else none

/- The operation that completes is any of the running ones. -/
def finish (policy : AgentPolicy) (a : Agent) (i : ℕ) (answer : Answer) : Option Agent :=
  if a.ep.ready then
    match a.operations[i]? with
    | none => none
    | some op =>
      match op.finish policy answer with
      | none => none
      | some done =>
        let a' := { a with operations := a.operations.eraseIdx i }
        match finishAgentOperation (a.ep.entry op.id) done with
        | .ok (x, await) => some { a' with ep := { a.ep.setEntry op.id x with await := await } }
        | .error e => some { a' with ep := a.ep.fail e }
  else none

/- A relay task ends by dropping its stream; the driver joins it some time later. -/
def joinRelay (a : Agent) (id : ℕ) : Option Agent :=
  if a.ep.ready && a.relays.contains id then
    match a.ep.live.lookup id with
    | some s => if s.dropped then some { a with relays := a.relays.erase id } else none
    | none => none
  else none

def resume (limits : NegotiatedLimits) (caps : Caps) (a : Agent) : Option Agent :=
  match a.ep.resume caps with
  | none => none
  | some (ep, .done) => some { a with ep := ep }
  | some (ep, .ping nonce) => some { a with ep := { ep with ping := some nonce } }
  | some (ep, .resolved id addresses) => some { a with
      ep := ep.setEntry id { ep.entry id with state := some (.resolved addresses) } }
  | some (ep, .opened id) => some { a with
      ep := ep.setEntry id ⟨some .opened, some (Stream.new limits.receiveWindow)⟩
      relays := a.relays ++ [id] }

def teardown (a : Agent) (id : ℕ) : Option Agent :=
  match a.ep.ended, a.ep.streams.lookup id, a.ep.live.lookup id with
  | some e, some .opened, some s =>
    some { a with ep := a.ep.setStream id { s.sessionFailure e with aborted := true } }
  | _, _, _ => none

def step (limits : NegotiatedLimits) (policy : AgentPolicy) (caps : Caps) (a : Agent) :
    AgentAct → Option Agent
  | .stream id act => a.lift (a.ep.streamStep limits caps id act)
  | .pick raced => a.lift (a.ep.pick raced)
  | .deliver => a.lift (a.ep.deliver caps)
  | .frame => a.frame limits policy
  | .event => a.event
  | .finish i answer => a.finish policy i answer
  | .joinRelay id => a.joinRelay id
  | .keepalive nonce => a.lift (a.ep.keepalive nonce)
  | .resume => a.resume limits caps
  | .fail error =>
    if a.ep.ended.isNone && !error.isProtocol then some { a with ep := a.ep.fail error } else none
  | .teardown id => a.teardown id

end Agent

end Alighieri.Rdp
