import Alighieri.Rdp.Frame

/-!
# One logical stream at one endpoint (mux.rs:447-906, 964-1149)

`StreamShared`, its credit window and the two worker tasks of `spawn_stream`. A transition is one
section of the source between two points where another task can run: one section under the state
lock, the acquisition of a gate, or the hand-over of a frame to a queue. Acquiring a gate and
looking at the state right after it are one transition, since nobody else can use the gate.

`accepted`, `drained` and `delivered` are histories: the bytes `poll_write` has taken, those the
outbound worker has taken out of `outbound`, and those `poll_read` has returned.
-/

namespace Alighieri.Rdp
open Net

/- `MuxError::Protocol` carries a text; a validation failure is kept as it is. -/
inductive ProtocolCause where
  | text (message : String)
  | frame (error : ProtocolError)
  deriving DecidableEq, Repr

inductive MuxError where
  | unavailable
  | timeout
  | sessionClosed (message : String)
  | protocol (cause : ProtocolCause)
  | transport (message : String)
  | resourceLimit
  | streamIdExhausted
  | invalidState (message : String)
  | invalidCandidate (address : SocketAddr)
  | remote (code : OpenErrorCode) (diagnostic : Text)
  deriving DecidableEq, Repr

def protocolError (message : String) : MuxError := .protocol (.text message)

def MuxError.isProtocol : MuxError → Bool
  | .protocol _ => true
  | _ => false

/- `(io::ErrorKind::ConnectionReset, text)` with the text as its parts. -/
inductive StreamFailure where
  | remoteClosed (reason : CloseReason)
  | session (error : MuxError)
  deriving DecidableEq, Repr

structure CreditWindow where
  maximum : ℕ
  available : ℕ
  closed : Bool
  deriving DecidableEq, Repr

namespace CreditWindow

def new (maximum : ℕ) : CreditWindow := ⟨maximum, maximum, false⟩

/- `checked_add` on `u32` first, then the negotiated maximum. -/
def add (w : CreditWindow) (credit : ℕ) : Except MuxError CreditWindow :=
  if credit = 0 then .error (protocolError "zero WINDOW_UPDATE")
  else if 2 ^ 32 ≤ w.available + credit then .error (protocolError "WINDOW_UPDATE overflow")
  else if w.maximum < w.available + credit then
    .error (protocolError "WINDOW_UPDATE exceeds negotiated window")
  else .ok { w with available := w.available + credit }

def close (w : CreditWindow) : CreditWindow := { w with closed := true }

end CreditWindow

/- Where `outbound_worker` stands. From `sendData` to `dataSent`, from
`sendShutdown` to `shutdownSent` and in `sendClose` it holds the send gate. -/
inductive OutboundPc where
  | select
  | takeCredit (wanted : ℕ)
  | dataGate (credit : ℕ)
  | sendData (payload : Bytes)
  | dataSent (count : ℕ)
  | shutdownGate
  | sendShutdown
  | shutdownSent
  | closeGate (reason : CloseReason)
  | sendClose (reason : CloseReason)
  | emit (queued : Bool)
  | done (queued : Bool)
  | killed
  deriving DecidableEq, Repr

/- Where `credit_worker` stands. From `gate` on it has reserved a slot of the
ordered queue; from `take` to `update` it holds both gates. -/
inductive CreditPc where
  | check
  | reserve
  | gate
  | take
  | publish (credit : ℕ)
  | update (credit : ℕ)
  | done
  deriving DecidableEq, Repr

@[simp] def OutboundPc.holdsGate : OutboundPc → Bool
  | .sendData _ | .dataSent _ | .sendShutdown | .shutdownSent | .sendClose _ => true
  | _ => false

@[simp] def CreditPc.holdsGates : CreditPc → Bool
  | .take | .publish _ | .update _ => true
  | _ => false

/- `driverGate` says that the driver is inside `queue_close_once` with the gate
held, `aborted` that the `StreamRecord` has been dropped. -/
structure Stream where
  inbound : Bytes
  outbound : Bytes
  returnedCredit : ℕ
  receiveCredit : ℕ
  inboundEof : Bool
  writeShutdown : Bool
  shutdownSent : Bool
  dropped : Bool
  closeQueued : Bool
  closeReason : CloseReason
  remoteClosed : Bool
  failure : Option StreamFailure
  pendingOutbound : ℕ
  capacity : ℕ
  peerCredit : CreditWindow
  outPc : OutboundPc
  creditPc : CreditPc
  driverGate : Bool
  aborted : Bool
  accepted : Bytes
  drained : Bytes
  delivered : Bytes
  deriving DecidableEq, Repr

namespace Stream

/- `StreamShared::new` together with `spawn_stream`. -/
def new (window : ℕ) : Stream where
  inbound := []
  outbound := []
  returnedCredit := 0
  receiveCredit := window
  inboundEof := false
  writeShutdown := false
  shutdownSent := false
  dropped := false
  closeQueued := false
  closeReason := .normal
  remoteClosed := false
  failure := none
  pendingOutbound := 0
  capacity := window
  peerCredit := .new window
  outPc := .select
  creditPc := .check
  driverGate := false
  aborted := false
  accepted := []
  drained := []
  delivered := []

def sendGateFree (s : Stream) : Bool :=
  !s.outPc.holdsGate && !s.creditPc.holdsGates && !s.driverGate

/- The driver holds the receive gate for one push only. -/
def receiveGateFree (s : Stream) : Bool := !s.creditPc.holdsGates

def pushInbound (s : Stream) (payload : Bytes) : Except MuxError Stream :=
  if s.inboundEof || s.remoteClosed then
    .error (protocolError "DATA arrived after peer write shutdown")
  else if s.receiveCredit < payload.length then
    .error (protocolError "peer sent DATA without receive credit")
  else if s.capacity - s.inbound.length < payload.length then
    .error (protocolError "peer exceeded the negotiated receive window")
  else .ok { s with
    receiveCredit := s.receiveCredit - payload.length
    inbound := s.inbound ++ payload }

def finishInbound (s : Stream) : Except MuxError Stream :=
  if s.inboundEof then .error (protocolError "duplicate SHUTDOWN_WRITE")
  else .ok { s with inboundEof := true }

def addCredit (s : Stream) (credit : ℕ) : Except MuxError Stream :=
  match s.peerCredit.add credit with
  | .ok w => .ok { s with peerCredit := w }
  | .error e => .error e

/- The state lock and the credit lock are taken one after the other; a worker
that takes credit between them ends as one that took it before. -/
def shut (s : Stream) (failure : Option StreamFailure) : Stream := { s with
  remoteClosed := true
  inboundEof := true
  failure := failure
  outbound := []
  pendingOutbound := 0
  peerCredit := s.peerCredit.close }

def remoteClose (s : Stream) (reason : CloseReason) : Stream :=
  s.shut (if reason ≠ .normal then some (.remoteClosed reason) else s.failure)

def sessionFailure (s : Stream) (error : MuxError) : Stream := s.shut (some (.session error))

def dropLocal (s : Stream) : Stream := { s with
  dropped := true
  outbound := []
  pendingOutbound := 0
  peerCredit := s.peerCredit.close }

def setCloseReason (s : Stream) (reason : CloseReason) : Stream :=
  if s.closeReason = .normal then { s with closeReason := reason } else s

inductive ReadPoll where
  | bytes (bs : Bytes)
  | eof
  | failed (f : StreamFailure)
  | pending
  deriving DecidableEq, Repr

def pollRead (s : Stream) (remaining : ℕ) : ReadPoll × Stream :=
  if remaining = 0 then (.bytes [], s)
  else if s.inbound ≠ [] then
    let count := min remaining s.inbound.length
    (.bytes (s.inbound.take count), { s with
      inbound := s.inbound.drop count
      returnedCredit := s.returnedCredit + count
      delivered := s.delivered ++ s.inbound.take count })
  else match s.failure with
    | some f => (.failed f, s)
    | none => if s.inboundEof || s.remoteClosed then (.eof, s) else (.pending, s)

inductive WritePoll where
  | accepted (count : ℕ)
  | closed
  | shutDown
  | pending
  deriving DecidableEq, Repr

def pollWrite (s : Stream) (buffer : Bytes) : WritePoll × Stream :=
  if buffer = [] then (.accepted 0, s)
  else if s.remoteClosed || s.dropped then (.closed, s)
  else if s.writeShutdown then (.shutDown, s)
  else if s.capacity - s.outbound.length = 0 then (.pending, s)
  else
    let count := min (s.capacity - s.outbound.length) buffer.length
    (.accepted count, { s with
      outbound := s.outbound ++ buffer.take count
      pendingOutbound := s.pendingOutbound + count
      accepted := s.accepted ++ buffer.take count })

inductive FlushPoll where
  | ready
  | failed (f : StreamFailure)
  | closed
  | pending
  deriving DecidableEq, Repr

def pollFlush (s : Stream) : FlushPoll :=
  match s.failure with
  | some f => .failed f
  | none =>
    if s.remoteClosed || s.dropped then .closed
    else if s.pendingOutbound = 0 then .ready
    else .pending

inductive ShutdownPoll where
  | ready
  | failed (f : StreamFailure)
  | closed
  | pending
  deriving DecidableEq, Repr

def pollShutdown (s : Stream) : ShutdownPoll × Stream :=
  match s.failure with
  | some f => (.failed f, s)
  | none =>
    if s.remoteClosed then (if s.shutdownSent then .ready else .closed, s)
    else if s.pendingOutbound = 0 && s.shutdownSent then
      (.ready, { s with writeShutdown := true })
    else (.pending, { s with writeShutdown := true })

end Stream

inductive WorkerEvent where
  | localCloseQueued (id : ℕ)
  | stopped (id : ℕ)
  deriving DecidableEq, Repr

def WorkerEvent.id : WorkerEvent → ℕ
  | .localCloseQueued id | .stopped id => id

/- What a transition of a stream asks of its endpoint. -/
inductive Effect where
  | none
  | push (f : Frame)
  | publish (f : Frame)
  | reserve
  | release
  | event (e : WorkerEvent)
  deriving DecidableEq, Repr

namespace Stream

/- `outbound_worker`; `none` while it waits. -/
def outboundStep (maxData : ℕ) (id : ℕ) (s : Stream) : Option (Stream × Effect) :=
  match s.outPc with
  | .select =>
    if s.remoteClosed then some ({ s with outPc := .emit false }, .none)
    else if s.dropped then some ({ s with outPc := .closeGate s.closeReason }, .none)
    else if s.outbound ≠ [] then
      some ({ s with outPc := .takeCredit (min s.outbound.length maxData) }, .none)
    else if s.writeShutdown && !s.shutdownSent then
      some ({ s with outPc := .shutdownGate }, .none)
    else none
  | .takeCredit wanted =>
    if s.peerCredit.closed then some ({ s with outPc := .select }, .none)
    else if s.peerCredit.available ≠ 0 then
      let count := min s.peerCredit.available wanted
      some ({ s with
        outPc := .dataGate count
        peerCredit := { s.peerCredit with available := s.peerCredit.available - count } }, .none)
    else none
  | .dataGate credit =>
    if s.sendGateFree then
      if s.dropped || s.remoteClosed then some ({ s with outPc := .select }, .none)
      else
        let payload := s.outbound.take credit
        if payload = [] then some ({ s with outPc := .select }, .none)
        else some ({ s with
          outPc := .sendData payload
          outbound := s.outbound.drop credit
          drained := s.drained ++ payload }, .none)
    else none
  | .sendData payload =>
    some ({ s with outPc := .dataSent payload.length }, .push (.data id payload))
  | .dataSent count =>
    some ({ s with outPc := .select, pendingOutbound := s.pendingOutbound - count }, .none)
  | .shutdownGate =>
    if s.sendGateFree then
      if !s.remoteClosed && !s.dropped && s.writeShutdown && !s.shutdownSent then
        some ({ s with outPc := .sendShutdown }, .none)
      else some ({ s with outPc := .select }, .none)
    else none
  | .sendShutdown => some ({ s with outPc := .shutdownSent }, .push (.shutdownWrite id))
  | .shutdownSent => some ({ s with outPc := .select, shutdownSent := true }, .none)
  | .closeGate reason =>
    if s.sendGateFree then
      if s.closeQueued then some ({ s with outPc := .emit false }, .none)
      else some ({ s with outPc := .sendClose reason, closeQueued := true }, .none)
    else none
  | .sendClose reason => some ({ s with outPc := .emit true }, .push (.close id reason))
  | .emit queued =>
    some ({ s with outPc := .done queued },
      .event (if queued then .localCloseQueued id else .stopped id))
  | .done _ | .killed => none

/- `credit_worker`; `none` while it waits. -/
def creditStep (id : ℕ) (s : Stream) : Option (Stream × Effect) :=
  match s.creditPc with
  | .check =>
    if s.dropped || s.remoteClosed then some ({ s with creditPc := .done }, .none)
    else if s.returnedCredit ≠ 0 then some ({ s with creditPc := .reserve }, .none)
    else none
  | .reserve => some ({ s with creditPc := .gate }, .reserve)
  | .gate => if s.sendGateFree then some ({ s with creditPc := .take }, .none) else none
  | .take =>
    if s.dropped || s.remoteClosed then some ({ s with creditPc := .done }, .release)
    else if s.returnedCredit ≠ 0 then
      some ({ s with creditPc := .publish s.returnedCredit, returnedCredit := 0 }, .none)
    else some ({ s with creditPc := .check }, .release)
  | .publish credit => some ({ s with creditPc := .update credit }, .publish (.windowUpdate id credit))
  | .update credit =>
    if 2 ^ 32 ≤ s.receiveCredit + credit || s.capacity < s.receiveCredit + credit then
      some ({ s with creditPc := .done }, .none)
    else some ({ s with creditPc := .check, receiveCredit := s.receiveCredit + credit }, .none)
  | .done => none

/- An aborted task ends at an await point, never inside a section between two. -/
def OutboundPc.atAwait : OutboundPc → Bool
  | .dataSent _ | .shutdownSent | .done _ | .killed => false
  | _ => true

def reapOutbound (s : Stream) : Option (Stream × Effect) :=
  if s.aborted && OutboundPc.atAwait s.outPc then some ({ s with outPc := .killed }, .none)
  else none

def reapCredit (s : Stream) : Option (Stream × Effect) :=
  if s.aborted then
    match s.creditPc with
    | .check | .reserve => some ({ s with creditPc := .done }, .none)
    | .gate => some ({ s with creditPc := .done }, .release)
    | _ => none
  else none

end Stream

/- Calls of the stream's owner and steps of its two workers. -/
inductive StreamAct where
  | read (remaining : ℕ)
  | write (buffer : Bytes)
  | shutdown
  | setReason (reason : CloseReason)
  | drop
  | outbound
  | credit
  | reapOutbound
  | reapCredit
  deriving DecidableEq, Repr

def StreamAct.isWorker : StreamAct → Bool
  | .outbound | .credit | .reapOutbound | .reapCredit => true
  | _ => false

/- The owner's calls need a stream that has not been dropped. -/
def Stream.step (maxData : ℕ) (id : ℕ) (s : Stream) : StreamAct → Option (Stream × Effect)
  | .read remaining => if s.dropped then none else some ((s.pollRead remaining).2, .none)
  | .write buffer => if s.dropped then none else some ((s.pollWrite buffer).2, .none)
  | .shutdown => if s.dropped then none else some (s.pollShutdown.2, .none)
  | .setReason reason => if s.dropped then none else some (s.setCloseReason reason, .none)
  | .drop => if s.dropped then none else some (s.dropLocal, .none)
  | .outbound => s.outboundStep maxData id
  | .credit => s.creditStep id
  | .reapOutbound => s.reapOutbound
  | .reapCredit => s.reapCredit

end Alighieri.Rdp
