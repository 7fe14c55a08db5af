import Alighieri.Rdp.Endpoint

/-!
# The client end (mux.rs:188-445, 1352-1835)

The handlers of `drive_client` are functions on the entry of one stream; `Client.step` puts them
into the driver. Commands come from callers: `resolve` and `open_ip` allocate the next identifier
and send their command under the admission lock, `open` and `close` may name any stream.
-/

namespace Alighieri.Rdp
open Net

/- The Boolean is the slot permit that travels with the state. -/
inductive ClientStreamState where
  | resolving (port : ℕ)
  | resolved (candidates : List SocketAddr)
  | opening (candidates : Option (List SocketAddr)) (permit : Bool)
  | opened (permit : Bool)
  | closing (permit : Bool)
  deriving DecidableEq, Repr

inductive ClientCommand where
  | resolve (id : ℕ) (hostname : Text) (port : ℕ)
  | openTo (id : ℕ) (address : SocketAddr) (permit : Bool)
  | openIp (id : ℕ) (address : SocketAddr)
  | close (id : ℕ)
  deriving DecidableEq, Repr

inductive Reply where
  | resolved (addresses : List SocketAddr)
  | resolveFailed (error : MuxError)
  | opened (bound : SocketAddr)
  | openFailed (error : MuxError) (permit : Bool)
  deriving DecidableEq, Repr

structure ClientHandled where
  entry : Entry ClientStreamState
  await : Await
  reply : Option Reply

def cancelled : MuxError := .sessionClosed "operation cancelled"

/- `handle_client_command` for the stream its command names; `full` is
`streams.len() >= max_streams`. -/
def handleClientCommand (full : Bool) (x : Entry ClientStreamState) :
    ClientCommand → Except MuxError ClientHandled
  | .resolve id hostname port => do
    validateLocalStreamId id
    if full then .ok ⟨x, .idle, some (.resolveFailed .resourceLimit)⟩
    else if x.state.isSome then .error (protocolError "duplicate local stream ID")
    else match (Frame.resolve id port hostname).validate with
      | .error e => .error (.protocol (.frame e))
      | .ok _ =>
        .ok ⟨{ x with state := some (.resolving port) },
          .ordered (.resolve id port hostname) .done, none⟩
  | .openTo id address permit =>
    match x.state with
    | none => .ok ⟨x, .idle, some (.openFailed (.invalidState "OPEN without RESOLVE") permit)⟩
    | some (.resolved candidates) =>
      if address ∈ candidates then
        .ok ⟨{ x with state := some (.opening (some candidates) permit) },
          .ordered (.openTo id address) .done, none⟩
      else .ok ⟨x, .idle, some (.openFailed (.invalidCandidate address) permit)⟩
    | some _ => .ok ⟨x, .idle, some (.openFailed (.invalidState "stream is not resolved") permit)⟩
  | .openIp id address => do
    validateLocalStreamId id
    if full then .ok ⟨x, .idle, some (.openFailed .resourceLimit false)⟩
    else if x.state.isSome then .error (protocolError "duplicate local stream ID")
    else .ok ⟨{ x with state := some (.opening none true) }, .ordered (.openTo id address) .done,
      none⟩
  | .close id =>
    match x.state with
    | none => .ok ⟨x, .idle, none⟩
    | some (.closing _) => .ok ⟨x, .idle, none⟩
    | some (.opened permit) =>
      .ok ⟨⟨some (.closing permit), x.stream.map (·.sessionFailure cancelled)⟩,
        .closeGate id .cancelled, none⟩
    | some (.opening _ permit) =>
      .ok ⟨{ x with state := some (.closing permit) }, .ordered (.close id .cancelled) .done,
        some (.openFailed cancelled false)⟩
    | some (.resolving _) =>
      .ok ⟨{ x with state := some (.closing false) }, .ordered (.close id .cancelled) .done,
        some (.resolveFailed cancelled)⟩
    | some (.resolved _) =>
      .ok ⟨{ x with state := some (.closing false) }, .ordered (.close id .cancelled) .done, none⟩

/- The reply `fail_client_state` gives to a caller that still waits. -/
def failClientState (error : MuxError) : ClientStreamState → Option Reply
  | .resolving _ => some (.resolveFailed error)
  | .opening _ permit => some (.openFailed error permit)
  | _ => none

/- `RESOLVE_OK`; `alive` says whether the caller still waits for its reply. -/
def clientResolveOk (alive : Bool) (x : Entry ClientStreamState) (id : ℕ)
    (addresses : List SocketAddr) : Except MuxError ClientHandled :=
  match x.state with
  | some (.resolving port) =>
    if addresses.any (fun a => decide (a.port ≠ port)) then
      .error (protocolError "RESOLVE_OK returned an address with an unexpected port")
    else if addresses = [] then
      .ok ⟨{ x with state := none }, .idle, some (.resolveFailed (.remote .hostUnreachable
        "remote resolution returned no addresses".toList))⟩
    else if alive then
      .ok ⟨{ x with state := some (.resolved addresses) }, .idle, some (.resolved addresses)⟩
    else .ok ⟨{ x with state := some (.closing false) }, .ordered (.close id .cancelled) .done,
      none⟩
  | some (.closing _) => .ok ⟨x, .idle, none⟩
  | some _ => .error (protocolError "RESOLVE_OK in the wrong stream state")
  | none => .error (protocolError "RESOLVE_OK for an unknown stream")

/- `OPEN_OK` spawns the stream; a caller that is gone drops it at once. -/
def clientOpenOk (limits : NegotiatedLimits) (alive : Bool) (x : Entry ClientStreamState)
    (bound : SocketAddr) : Except MuxError ClientHandled :=
  match x.state with
  | some (.opening _ permit) =>
    let s := Stream.new limits.receiveWindow
    .ok ⟨⟨some (.opened permit), some (if alive then s else s.dropLocal)⟩, .idle,
      if alive then some (.opened bound) else none⟩
  | some (.closing _) => .ok ⟨x, .idle, none⟩
  | some _ => .error (protocolError "OPEN_OK in the wrong stream state")
  | none => .error (protocolError "OPEN_OK for an unknown stream")

def clientOpenError (x : Entry ClientStreamState) (code : OpenErrorCode) (diagnostic : Text) :
    Except MuxError ClientHandled :=
  match x.state with
  | none => .error (protocolError "OPEN_ERROR for an unknown stream")
  | some (.resolving _) =>
    .ok ⟨{ x with state := none }, .idle, some (.resolveFailed (.remote code diagnostic))⟩
  | some (.opening candidates permit) =>
    .ok ⟨{ x with state := candidates.map .resolved }, .idle,
      some (.openFailed (.remote code diagnostic) permit)⟩
  | some (.closing _) => .ok ⟨x, .idle, none⟩
  | some _ => .error (protocolError "OPEN_ERROR in the wrong stream state")

def clientClose (x : Entry ClientStreamState) (id : ℕ) (reason : CloseReason) :
    Except MuxError ClientHandled :=
  match x.state with
  | none => .error (protocolError "CLOSE for an unknown stream")
  | some (.closing _) => .ok ⟨{ x with state := none }, .idle, none⟩
  | some (.opened _) =>
    .ok ⟨⟨none, x.stream.map (·.remoteClose reason)⟩, .closeGate id .normal, none⟩
  | some state =>
    .ok ⟨{ x with state := none }, .ordered (.close id .normal) .done,
      failClientState (.sessionClosed ("remote closed stream: " ++ reason.debug)) state⟩

def ClientStreamState.standing : Option ClientStreamState → Standing
  | some (.opened _) => .takes
  | some (.closing _) => .ignores
  | some _ => .early
  | none => .unknown

/- `handle_client_frame` for the frames of one stream. -/
def handleClientFrame (limits : NegotiatedLimits) (alive : Bool) (x : Entry ClientStreamState) :
    Frame → Except MuxError ClientHandled
  | .resolveOk id addresses => clientResolveOk alive x id addresses
  | .openOk _ bound => clientOpenOk limits alive x bound
  | .openError _ code diagnostic => clientOpenError x code diagnostic
  | .data id payload => do
    let await ← handleData limits (ClientStreamState.standing x.state) id payload
    .ok ⟨x, await, none⟩
  | .shutdownWrite _ => do
    let stream ← handleShutdownWrite (ClientStreamState.standing x.state) x.stream
    .ok ⟨{ x with stream := stream }, .idle, none⟩
  | .windowUpdate _ credit => do
    let stream ← handleWindowUpdate credit (ClientStreamState.standing x.state) x.stream
    .ok ⟨{ x with stream := stream }, .idle, none⟩
  | .close id reason => clientClose x id reason
  | _ => .error (protocolError "unexpected peer message for local role")

/- `handle_client_worker_event`: dropping the record aborts the workers. -/
def clientWorkerEvent (x : Entry ClientStreamState) : WorkerEvent → Entry ClientStreamState
  | .localCloseQueued _ =>
    match x.state with
    | some (.opened permit) =>
      ⟨some (.closing permit), x.stream.map ({ · with aborted := true })⟩
    | _ => x
  | .stopped _ =>
    match x.state with
    | some (.opened _) => ⟨none, x.stream.map ({ · with aborted := true })⟩
    | _ => x

/- `started` is the last identifier for which a creating command was handled. -/
structure Client where
  ep : Endpoint ClientStreamState
  commands : List ClientCommand
  nextStreamId : ℕ
  replies : List (ℕ × Reply)
  started : ℕ

def Client.start : Client where
  ep := .start
  commands := []
  nextStreamId := 1
  replies := []
  started := 0

inductive ClientAct where
  | stream (id : ℕ) (a : StreamAct)
  | pick (raced : Bool)
  | deliver
  | resolve (hostname : Text) (port : ℕ)
  | openIp (address : SocketAddr)
  | openTo (id : ℕ) (address : SocketAddr) (permit : Bool)
  | close (id : ℕ)
  | skipId
  | command
  | frame (alive : Bool)
  | event
  | keepalive (nonce : ℕ)
  | resume
  | fail (error : MuxError)
  | teardown (id : ℕ)

namespace Client

def lift (c : Client) : Option (Endpoint ClientStreamState) → Option Client :=
  Option.map fun ep => { c with ep := ep }

/- `allocate_stream_id` never wraps: `checked_add(2)` on `u32`. -/
def canAllocate (c : Client) : Bool := decide (c.nextStreamId + 2 < 2 ^ 32)

def send (caps : Caps) (c : Client) (cmd : ClientCommand) : Option Client :=
  if c.commands.length < caps.commands && c.ep.ended.isNone then
    some { c with commands := c.commands ++ [cmd] }
  else none

def commandId : ClientCommand → ℕ
  | .resolve id _ _ | .openTo id _ _ | .openIp id _ | .close id => id

def creates : ClientCommand → Bool
  | .resolve _ _ _ | .openIp _ _ => true
  | _ => false

/- The effect of a handler on the driver, or the end of the session. -/
def settle (c : Client) (id : ℕ) : Except MuxError ClientHandled → Client
  | .ok h => { c with
      ep := { c.ep.setEntry id h.entry with await := h.await }
      replies := c.replies ++ (h.reply.map (Prod.mk id)).toList }
  | .error e => { c with ep := c.ep.fail e }

def command (limits : NegotiatedLimits) (c : Client) : Option Client :=
  if c.ep.ready then
    match c.commands with
    | [] => none
    | cmd :: rest =>
      let c' := { c with
        commands := rest
        started := if creates cmd then commandId cmd else c.started }
      some (c'.settle (commandId cmd) (handleClientCommand
        (decide (limits.maxStreams ≤ c.ep.streams.size)) (c.ep.entry (commandId cmd)) cmd))
  else none

def frame (limits : NegotiatedLimits) (alive : Bool) (c : Client) : Option Client :=
  if c.ep.ready then
    match c.ep.frames with
    | [] => none
    | f :: rest =>
      let c' := { c with ep := { c.ep with frames := rest } }
      match f with
      | .ping nonce => some { c' with ep := c'.ep.onPing nonce }
      | .pong nonce => some { c' with ep := c'.ep.onPong nonce }
      | f => some (c'.settle f.streamId
          (handleClientFrame limits alive (c.ep.entry f.streamId) f))
  else none

def event (c : Client) : Option Client :=
  if c.ep.ready then
    match c.ep.events with
    | [] => none
    | w :: rest => some { c with
        ep := { c.ep.setEntry w.id (clientWorkerEvent (c.ep.entry w.id) w) with events := rest } }
  else none

def resume (caps : Caps) (c : Client) : Option Client :=
  match c.ep.resume caps with
  | none => none
  | some (ep, .ping nonce) => some { c with ep := { ep with ping := some nonce } }
  | some (ep, _) => some { c with ep := ep }

/- `fail_client_streams` after the loop, one stream at a time. -/
def teardown (c : Client) (id : ℕ) : Option Client :=
  match c.ep.ended, c.ep.streams.lookup id, c.ep.live.lookup id with
  | some e, some (.opened _), some s =>
    some { c with ep := c.ep.setStream id { s.sessionFailure e with aborted := true } }
  | _, _, _ => none

/- One step of the client end. A session may end for a reason that is not the
protocol's at any time: a timeout, the transport, a cancellation. -/
def step (limits : NegotiatedLimits) (caps : Caps) (c : Client) : ClientAct → Option Client
  | .stream id a => c.lift (c.ep.streamStep limits caps id a)
  | .pick raced => c.lift (c.ep.pick raced)
  | .deliver => c.lift (c.ep.deliver caps)
  | .resolve hostname port =>
    if c.canAllocate && ((Frame.resolve 1 port hostname).validate matches .ok _) then
      send caps { c with nextStreamId := c.nextStreamId + 2 }
        (.resolve c.nextStreamId hostname port)
    else none
  | .openIp address =>
    if c.canAllocate &&
        ((Frame.openTo 1 (canonicalizeAddress address)).validate matches .ok _) then
      send caps { c with nextStreamId := c.nextStreamId + 2 }
        (.openIp c.nextStreamId (canonicalizeAddress address))
    else none
  | .openTo id address permit => send caps c (.openTo id (canonicalizeAddress address) permit)
  | .close id => send caps c (.close id)
  | .skipId => if c.canAllocate then some { c with nextStreamId := c.nextStreamId + 2 } else none
  | .command => c.command limits
  | .frame alive => c.frame limits alive
  | .event => c.event
  | .keepalive nonce => c.lift (c.ep.keepalive nonce)
  | .resume => c.resume caps
  | .fail error =>
    if c.ep.ended.isNone && !error.isProtocol then some { c with ep := c.ep.fail error } else none
  | .teardown id => c.teardown id

end Client

end Alighieri.Rdp
