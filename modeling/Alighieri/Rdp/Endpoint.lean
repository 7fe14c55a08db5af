import Alighieri.Lib.Table
import Alighieri.Rdp.Stream

/-!
# What the two ends of a session share (mux.rs:1151-1260, 1364-1436, 1902-2005)

A table of stream states, the spawned streams, the two outgoing queues with `frame_writer`, the
incoming queue with `frame_reader`, the worker events and the driver. The driver runs one handler
at a time; one that has to wait for room in a queue or for a gate leaves an `Await` behind, and
`resume` carries it on. `log` is the history of the ordered queue.
-/

namespace Alighieri.Rdp
open Net

/- Channel capacities (mux.rs:1294-1298, 1855-1858; the wire is the transport's own). -/
structure Caps where
  control : ℕ
  ordered : ℕ
  frames : ℕ
  events : ℕ
  commands : ℕ
  wire : ℕ
  control_pos : 0 < control
  ordered_pos : 0 < ordered
  frames_pos : 0 < frames
  events_pos : 0 < events
  commands_pos : 0 < commands
  wire_pos : 0 < wire

def smallCaps : Caps where
  control := 1
  ordered := 1
  frames := 1
  events := 1
  commands := 1
  wire := 1
  control_pos := Nat.one_pos
  ordered_pos := Nat.one_pos
  frames_pos := Nat.one_pos
  events_pos := Nat.one_pos
  commands_pos := Nat.one_pos
  wire_pos := Nat.one_pos

/- What a handler still does once the frame it waits to send has been queued. -/
inductive Next where
  | done
  | ping (nonce : ℕ)
  | resolved (id : ℕ) (addresses : List SocketAddr)
  | opened (id : ℕ)
  deriving DecidableEq, Repr

/- Where the driver's current handler is suspended. -/
inductive Await where
  | idle
  | ordered (f : Frame) (next : Next)
  | control (f : Frame) (next : Next)
  | closeGate (id : ℕ) (reason : CloseReason)
  | closeSend (id : ℕ) (reason : CloseReason)
  | creditGate (id : ℕ) (payload : Bytes)
  deriving DecidableEq, Repr

def Await.next : Await → Next
  | .ordered _ next | .control _ next => next
  | _ => .done

structure Endpoint (σ : Type) where
  streams : Table ℕ σ
  live : Table ℕ Stream
  control : List Frame
  ordered : List Frame
  reserved : ℕ
  writer : Option Frame
  burst : ℕ
  reader : Option Frame
  frames : List Frame
  events : List WorkerEvent
  await : Await
  ping : Option ℕ
  ended : Option MuxError
  log : List Frame

structure Entry (σ : Type) where
  state : Option σ
  stream : Option Stream

namespace Endpoint

variable {σ : Type}

def start : Endpoint σ where
  streams := ∅
  live := ∅
  control := []
  ordered := []
  reserved := 0
  writer := none
  burst := 0
  reader := none
  frames := []
  events := []
  await := .idle
  ping := none
  ended := none
  log := []

def entry (e : Endpoint σ) (id : ℕ) : Entry σ := ⟨e.streams.lookup id, e.live.lookup id⟩

def setEntry (e : Endpoint σ) (id : ℕ) (x : Entry σ) : Endpoint σ :=
  { e with streams := e.streams.set id x.state, live := e.live.set id x.stream }

def setStream (e : Endpoint σ) (id : ℕ) (s : Stream) : Endpoint σ :=
  { e with live := e.live.set id (some s) }

def fail (e : Endpoint σ) (error : MuxError) : Endpoint σ := { e with ended := some error }

/- A slot of the ordered queue is taken by a frame or by a permit. -/
def orderedRoom (caps : Caps) (e : Endpoint σ) : Bool :=
  decide (e.ordered.length + e.reserved < caps.ordered)

def enqueue (e : Endpoint σ) (f : Frame) : Endpoint σ :=
  { e with ordered := e.ordered ++ [f], log := e.log ++ [f] }

def effect (caps : Caps) (e : Endpoint σ) : Effect → Option (Endpoint σ)
  | .none => some e
  | .push f => if e.orderedRoom caps then some (e.enqueue f) else none
  | .publish f => some { e.enqueue f with reserved := e.reserved - 1 }
  | .reserve => if e.orderedRoom caps then some { e with reserved := e.reserved + 1 } else none
  | .release => some { e with reserved := e.reserved - 1 }
  | .event w =>
    if e.events.length < caps.events then some { e with events := e.events ++ [w] } else none

/- A call on a stream or a worker's step. The workers stop with their session. -/
def streamStep (limits : NegotiatedLimits) (caps : Caps) (e : Endpoint σ) (id : ℕ)
    (a : StreamAct) : Option (Endpoint σ) :=
  if e.ended.isSome && a.isWorker then none
  else match e.live.lookup id with
    | none => none
    | some s =>
      match s.step limits.maxData id a with
      | none => none
      | some (s', eff) => (e.setStream id s').effect caps eff

def sessionControlBurst : ℕ := 8

/- `frame_writer` takes the next frame: control first, but not more than eight times in a row
while an ordered frame waits. A frame that comes in behind its look (`raced`) can be left for the
next turn. -/
def pick (raced : Bool) (e : Endpoint σ) : Option (Endpoint σ) :=
  if e.ended.isSome || e.writer.isSome then none
  else match e.control, e.ordered with
    | c :: cs, o :: os =>
      if decide (e.burst < sessionControlBurst) != raced then
        some { e with control := cs, writer := some c, burst := e.burst + 1 }
      else some { e with ordered := os, writer := some o, burst := 0 }
    | c :: cs, [] => some { e with control := cs, writer := some c, burst := e.burst + 1 }
    | [], o :: os => some { e with ordered := os, writer := some o, burst := 0 }
    | [], [] => none

/- `write_frame` has put the frame on the wire. -/
def depart (e : Endpoint σ) : Option (Frame × Endpoint σ) :=
  if e.ended.isSome then none
  else e.writer.map fun f => (f, { e with writer := none })

/- `read_frame` has taken a frame off the wire. -/
def arrive (e : Endpoint σ) (f : Frame) : Option (Endpoint σ) :=
  if e.ended.isSome || e.reader.isSome then none else some { e with reader := some f }

/- `frame_reader` hands its frame to the driver's queue. -/
def deliver (caps : Caps) (e : Endpoint σ) : Option (Endpoint σ) :=
  if e.ended.isSome then none
  else match e.reader with
    | some f =>
      if e.frames.length < caps.frames then
        some { e with reader := none, frames := e.frames ++ [f] }
      else none
    | none => none

def ready (e : Endpoint σ) : Bool := e.ended.isNone && decide (e.await = .idle)

/- A keepalive tick: a ping already under way is left alone until it times out. -/
def keepalive (e : Endpoint σ) (nonce : ℕ) : Option (Endpoint σ) :=
  if e.ready then
    match e.ping with
    | some _ => some e
    | none => some { e with await := .control (.ping nonce) (.ping nonce) }
  else none

def onPing (e : Endpoint σ) (nonce : ℕ) : Endpoint σ :=
  { e with await := .control (.pong nonce) .done }

def onPong (e : Endpoint σ) (nonce : ℕ) : Endpoint σ :=
  if e.ping = some nonce then { e with ping := none }
  else e.fail (protocolError "unexpected PONG nonce")

/- `queue_close_once` in the driver, from the acquisition of the gate on. The
record is dropped when the handler returns. -/
def resumeClose (e : Endpoint σ) (id : ℕ) (reason : CloseReason) : Option (Endpoint σ) :=
  match e.live.lookup id with
  | none => none
  | some s =>
    if s.sendGateFree then
      if s.closeQueued then
        some { e.setStream id { s with aborted := true } with await := .idle }
      else some { e.setStream id { s with closeQueued := true, driverGate := true } with
        await := .closeSend id reason }
    else none

/- A suspended handler goes on when what it waits for is there. The second
component is what is left to do. -/
def resume (caps : Caps) (e : Endpoint σ) : Option (Endpoint σ × Next) :=
  if e.ended.isSome then none
  else match e.await with
    | .idle => none
    | .ordered f next =>
      if e.orderedRoom caps then some ({ e.enqueue f with await := .idle }, next) else none
    | .control f next =>
      if e.control.length < caps.control then
        some ({ e with control := e.control ++ [f], await := .idle }, next)
      else none
    | .closeGate id reason => (e.resumeClose id reason).map fun e' => (e', .done)
    | .closeSend id reason =>
      match e.live.lookup id with
      | none => none
      | some s =>
        if e.orderedRoom caps then
          some ({ (e.setStream id { s with driverGate := false, aborted := true }).enqueue
            (.close id reason) with await := .idle }, .done)
        else none
    | .creditGate id payload =>
      match e.live.lookup id with
      | none => none
      | some s =>
        if s.receiveGateFree then
          match s.pushInbound payload with
          | .ok s' => some ({ e.setStream id s' with await := .idle }, .done)
          | .error error => some (e.fail error, .done)
        else none

end Endpoint

/- An endpoint against a peer that is not modelled: any frame may arrive at any
time, and frames leave at any time. `own` is a step of the endpoint. -/
inductive PeerAct (α : Type) where
  | arrive (f : Frame)
  | depart
  | own (a : α)

/- Stream identifiers are allocated by the client end and are odd. -/
def validateLocalStreamId (id : ℕ) : Except MuxError Unit :=
  if id = 0 ∨ id % 2 = 0 then .error (protocolError "local stream IDs must be nonzero and odd")
  else .ok ()

/- How a stream's state meets DATA, SHUTDOWN_WRITE and WINDOW_UPDATE: an open stream
takes them, a closing one ignores them, in any other state they are an error. -/
inductive Standing where
  | takes
  | ignores
  | early
  | unknown
  deriving DecidableEq, Repr

/- DATA for an open stream waits for the receive gate. -/
def handleData (limits : NegotiatedLimits) (standing : Standing) (id : ℕ)
    (payload : Bytes) : Except MuxError Await :=
  if limits.maxData < payload.length then
    .error (protocolError "DATA exceeds negotiated max_data")
  else match standing with
    | .takes => .ok (.creditGate id payload)
    | .ignores => .ok .idle
    | .early => .error (protocolError "DATA arrived before OPEN_OK")
    | .unknown => .error (protocolError "DATA used an unknown stream ID")

/- SHUTDOWN_WRITE and WINDOW_UPDATE; `word` is the frame's name in the error texts. -/
def handleOnStream (word : String) (op : Stream → Except MuxError Stream) (standing : Standing)
    (stream : Option Stream) : Except MuxError (Option Stream) :=
  match standing with
  | .takes =>
    match stream with
    | some s => (op s).map some
    | none => .ok none
  | .ignores => .ok stream
  | .early => .error (protocolError (word ++ " arrived before OPEN_OK"))
  | .unknown => .error (protocolError (word ++ " used an unknown stream ID"))

def handleShutdownWrite : Standing → Option Stream → Except MuxError (Option Stream) :=
  handleOnStream "SHUTDOWN_WRITE" Stream.finishInbound

def handleWindowUpdate (credit : ℕ) : Standing → Option Stream → Except MuxError (Option Stream) :=
  handleOnStream "WINDOW_UPDATE" (fun s => s.addCredit credit)

end Alighieri.Rdp
