import Alighieri.Rdp.ClientSide

/-!
# Callers and slots (mux.rs:177-425)

`ClientHandle::resolve` and `open_ip` acquire a permit of the session's semaphore before they
allocate a stream, and `ResolvedTarget` carries it to `open`. From then on it is owned by the
caller, a command, the state or the record of the stream, a tombstone, or a reply on its way back,
and released where its owner is dropped.

A caller may give up at any await point. Its cancellation guard then sends Close; when the command
queue is full the guard asks the driver to end the session, which is always a step of the client.
-/

namespace Alighieri.Rdp
open Net Lts

def Reply.permit : Reply → Bool
  | .openFailed _ permit => permit
  | _ => false

def ClientCommand.permit : ClientCommand → Bool
  | .openTo _ _ permit => permit
  | .openIp _ _ => true
  | _ => false

def ClientStreamState.permit : ClientStreamState → Bool
  | .opening _ permit | .opened permit | .closing permit => permit
  | _ => false

def MuxError.isRemote : MuxError → Bool
  | .remote _ _ => true
  | _ => false

/- A caller whose first command has been sent; `mail` is the reply that waits in its oneshot
channel. `target` is a `ResolvedTarget` at rest, `offering` is `open` before its command is in the
queue. -/
inductive Caller where
  | resolving (mail : Option Reply)
  | openingIp (mail : Option Reply)
  | target (candidates : List SocketAddr) (permit finished : Bool)
  | offering (candidates : List SocketAddr) (address : SocketAddr) (permit : Bool)
  | opening (candidates : List SocketAddr) (mail : Option Reply)
  deriving DecidableEq, Repr

namespace Caller

/- The reply of `open_ip` has no room for a permit: the driver drops it. -/
def permit : Caller → Bool
  | .resolving _ => true
  | .openingIp _ => false
  | .target _ permit _ => permit
  | .offering _ _ permit => permit
  | .opening _ mail => mail.any Reply.permit

def waits : Caller → Bool
  | .resolving mail | .openingIp mail | .opening _ mail => mail.isNone
  | _ => false

def mailed (r : Reply) : Caller → Caller
  | .resolving none => .resolving (some r)
  | .openingIp none => .openingIp (some r)
  | .opening candidates none => .opening candidates (some r)
  | c => c

/- What is left of a caller, and whether its cancellation guard sends Close. -/
def receive : Caller → Option (Option Caller × Bool)
  | .resolving (some (.resolved addresses)) => some (some (.target addresses true false), false)
  | .resolving (some (.resolveFailed _)) => some (none, true)
  | .openingIp (some (.opened _)) => some (none, false)
  | .openingIp (some (.openFailed _ _)) => some (none, true)
  | .opening candidates (some (.opened _)) => some (some (.target candidates false true), false)
  | .opening candidates (some (.openFailed error permit)) =>
    if error.isRemote then some (some (.target candidates permit false), false)
    else some (some (.target candidates permit true), true)
  | _ => none

/- The deadline of a call has passed, its future or the target is dropped. -/
def giveUp : Caller → Option Caller × Bool
  | .resolving _ | .openingIp _ => (none, true)
  | .target _ _ finished => (none, !finished)
  | .offering candidates _ _ => (some (.target candidates false true), true)
  | .opening candidates _ => (some (.target candidates false true), true)

def hasStream : Caller → Bool
  | .openingIp (some (.opened _)) | .opening _ (some (.opened _)) => true
  | _ => false

def offer (address : SocketAddr) : Caller → Option Caller
  | .target candidates permit finished =>
    if finished then none
    else if canonicalizeAddress address ∈ candidates then
      some (.offering candidates (canonicalizeAddress address) permit)
    else none
  | _ => none

end Caller

/- `slots` counts the callers that have a permit and have not sent a command yet. -/
structure Handle where
  client : Client
  slots : ℕ
  callers : Table ℕ Caller

def Handle.start : Handle := ⟨.start, 0, ∅⟩

inductive HandleAct where
  | client (a : ClientAct)
  | frame
  | arrive (f : Frame)
  | depart
  | acquire
  | leave
  | resolve (hostname : Text) (port : ℕ)
  | openIp (address : SocketAddr)
  | receive (id : ℕ)
  | offer (id : ℕ) (address : SocketAddr)
  | submit (id : ℕ)
  | giveUp (id : ℕ)

/- The driver's steps apart from a frame, which asks whether the caller waits. -/
def ClientAct.isDriver : ClientAct → Bool
  | .resolve _ _ | .openIp _ | .openTo _ _ _ | .close _ | .frame _ => false
  | _ => true

namespace Handle

def outstanding (h : Handle) : ℕ :=
  h.slots + h.callers.count Caller.permit + h.client.commands.countP ClientCommand.permit +
    h.client.ep.streams.count ClientStreamState.permit

/- A reply goes to the caller that waits for it; otherwise it is dropped. -/
def post (callers : Table ℕ Caller) (reply : ℕ × Reply) : Table ℕ Caller :=
  callers.set reply.1 ((callers.lookup reply.1).map (Caller.mailed reply.2))

def absorb (h : Handle) (c : Client) : Handle :=
  { h with
    client := c
    callers := (c.replies.drop h.client.replies.length).foldl post h.callers }

def closeBestEffort (caps : Caps) (c : Client) (id : ℕ) : Client := (c.send caps (.close id)).getD c

/- The end of a call: what is left of the caller, and Close if the guard is armed. -/
def finish (caps : Caps) (h : Handle) (id : ℕ) (left : Option Caller × Bool) : Handle :=
  { h with
    client := if left.2 then closeBestEffort caps h.client id else h.client
    callers := h.callers.set id left.1 }

def waits (h : Handle) (id : ℕ) : Bool := (h.callers.lookup id).any Caller.waits

def step (limits : NegotiatedLimits) (caps : Caps) (h : Handle) : HandleAct → Option Handle
  | .client a => if a.isDriver then (h.client.step limits caps a).map h.absorb else none
  | .frame =>
    match h.client.ep.frames with
    | [] => none
    | f :: _ => (h.client.step limits caps (.frame (h.waits f.streamId))).map h.absorb
  | .arrive f => (h.client.meet limits caps (.arrive f)).map fun c => { h with client := c }
  | .depart => (h.client.meet limits caps .depart).map fun c => { h with client := c }
  | .acquire =>
    -- the semaphore is closed with its session
    if h.client.ep.ended.isNone && decide (h.outstanding < limits.maxStreams) then
      some { h with slots := h.slots + 1 }
    else none
  | .leave => if 0 < h.slots then some { h with slots := h.slots - 1 } else none
  | .resolve hostname port =>
    if 0 < h.slots then
      (h.client.step limits caps (.resolve hostname port)).map fun c =>
        ⟨c, h.slots - 1, h.callers.set h.client.nextStreamId (some (.resolving none))⟩
    else none
  | .openIp address =>
    if 0 < h.slots then
      (h.client.step limits caps (.openIp address)).map fun c =>
        ⟨c, h.slots - 1, h.callers.set h.client.nextStreamId (some (.openingIp none))⟩
    else none
  | .receive id => ((h.callers.lookup id).bind Caller.receive).map (h.finish caps id)
  | .offer id address =>
    ((h.callers.lookup id).bind (Caller.offer address)).map fun c =>
      { h with callers := h.callers.set id (some c) }
  | .submit id =>
    match h.callers.lookup id with
    | some (.offering candidates address permit) =>
      (h.client.step limits caps (.openTo id address permit)).map fun c =>
        { h with client := c, callers := h.callers.set id (some (.opening candidates none)) }
    | _ => none
  | .giveUp id =>
    (h.callers.lookup id).map fun c =>
      let h := if c.hasStream then
        { h with client := (h.client.step limits caps (.stream id .drop)).getD h.client } else h
      h.finish caps id c.giveUp

end Handle

end Alighieri.Rdp
