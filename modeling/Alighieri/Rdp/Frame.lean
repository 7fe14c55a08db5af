import Alighieri.Net.Addr
import Alighieri.Net.Host

/-!
# ALRD frames and negotiated limits (protocol.rs:14-410, 542-625, 967-1013)

Frames as the multiplexer sees them, their context-free validation and the limits two HELLO
advertisements agree on. Numbers of fixed width are naturals; a bound is written out where it is
checked.
-/

namespace Alighieri.Rdp
open Net

def version : ℕ := 1
def maxDataPayload : ℕ := 16384
def maxHostnameLen : ℕ := 253
def maxResolveAddresses : ℕ := 16
def maxDiagnosticLen : ℕ := 256
def initialWindow : ℕ := 262144
def maxStreams : ℕ := 128

abbrev Bytes := List UInt8

inductive MessageType where
  | hello | resolve | resolveOk | openTo | openOk | openError | data | shutdownWrite | close
  | windowUpdate | ping | pong
  deriving DecidableEq, Repr

def MessageType.isSession : MessageType → Bool
  | .hello | .ping | .pong => true
  | _ => false

/- `Role::Local` is the client end. -/
inductive Role where
  | client
  | agent
  deriving DecidableEq, Repr

def Role.opposite : Role → Role
  | .client => .agent
  | .agent => .client

inductive OpenErrorCode where
  | general | policyDenied | networkUnreachable | hostUnreachable | connectionRefused | timeout
  | addressTypeUnsupported | resourceLimit
  deriving DecidableEq, Repr

inductive CloseReason where
  | normal | cancelled | protocol | io | resourceLimit
  deriving DecidableEq, Repr

def CloseReason.debug : CloseReason → String
  | .normal => "Normal"
  | .cancelled => "Cancelled"
  | .protocol => "Protocol"
  | .io => "Io"
  | .resourceLimit => "ResourceLimit"

structure Hello where
  role : Role
  minVersion : ℕ
  maxVersion : ℕ
  maxData : ℕ
  receiveWindow : ℕ
  maxStreams : ℕ
  generationNonce : ℕ
  deriving DecidableEq, Repr

/- `Frame::Open` is `openTo`. -/
inductive Frame where
  | hello (h : Hello)
  | resolve (id : ℕ) (port : ℕ) (hostname : Text)
  | resolveOk (id : ℕ) (addresses : List SocketAddr)
  | openTo (id : ℕ) (address : SocketAddr)
  | openOk (id : ℕ) (bound : SocketAddr)
  | openError (id : ℕ) (code : OpenErrorCode) (diagnostic : Text)
  | data (id : ℕ) (payload : Bytes)
  | shutdownWrite (id : ℕ)
  | close (id : ℕ) (reason : CloseReason)
  | windowUpdate (id : ℕ) (credit : ℕ)
  | ping (nonce : ℕ)
  | pong (nonce : ℕ)
  deriving DecidableEq, Repr

namespace Frame

def messageType : Frame → MessageType
  | hello _ => .hello
  | resolve _ _ _ => .resolve
  | resolveOk _ _ => .resolveOk
  | openTo _ _ => .openTo
  | openOk _ _ => .openOk
  | openError _ _ _ => .openError
  | data _ _ => .data
  | shutdownWrite _ => .shutdownWrite
  | close _ _ => .close
  | windowUpdate _ _ => .windowUpdate
  | ping _ => .ping
  | pong _ => .pong

def streamId : Frame → ℕ
  | hello _ | ping _ | pong _ => 0
  | resolve id _ _ | resolveOk id _ | openTo id _ | openOk id _ | openError id _ _ | data id _
  | shutdownWrite id | close id _ | windowUpdate id _ => id

end Frame

inductive ProtocolError where
  | invalidMagic
  | unsupportedVersion (v : UInt8)
  | unknownMessageType (b : UInt8)
  | nonZeroFlags (flags : ℕ)
  | nonZeroSessionStreamId (ty : MessageType) (id : ℕ)
  | zeroStreamId (ty : MessageType)
  | payloadTooLarge (len : ℕ)
  | truncatedHeader (received : ℕ)
  | truncatedFrame (ty : MessageType) (expected received : ℕ)
  | trailingFrameBytes (count : ℕ)
  | truncatedPayload (ty : MessageType) (field : String)
  | trailingPayload (ty : MessageType) (remaining : ℕ)
  | invalidRole (b : UInt8)
  | nonZeroHelloReserved (b : UInt8)
  | invalidHello (message : String)
  | sameHelloRole (role : Role)
  | emptyHostname
  | hostnameTooLong (len : ℕ)
  | hostnameNotUtf8
  | invalidHostname (message : String)
  | tooManyAddresses (count : ℕ)
  | duplicateAddress (address : SocketAddr)
  | invalidAddressFamily (b : UInt8)
  | zeroPort (ty : MessageType)
  | invalidOpenErrorCode (b : UInt8)
  | diagnosticNotUtf8
  | diagnosticTooLong (len : ℕ)
  | diagnosticContainsControl
  | emptyData
  | dataTooLarge (len : ℕ)
  | invalidCloseReason (b : UInt8)
  | zeroWindowUpdate
  | decoderBufferLimit
  deriving DecidableEq, Repr

def validateStreamId (ty : MessageType) (id : ℕ) : Except ProtocolError Unit :=
  if ty.isSession then
    if id ≠ 0 then .error (.nonZeroSessionStreamId ty id) else .ok ()
  else if id = 0 then .error (.zeroStreamId ty)
  else .ok ()

/- `protocol::validate_hostname`; the shared check is `Net.validateHostname`. -/
def validateWireHostname (hostname : Text) : Except ProtocolError Unit :=
  if hostname = [] then .error .emptyHostname
  else if maxHostnameLen < utf8Len hostname then .error (.hostnameTooLong (utf8Len hostname))
  else match validateHostname hostname with
    | .ok _ => .ok ()
    | .error message => .error (.invalidHostname message)

def validatePort (ty : MessageType) (port : ℕ) : Except ProtocolError Unit :=
  if port = 0 then .error (.zeroPort ty) else .ok ()

/- The loop of `validate_address_list`; `unique` is the set of addresses seen. -/
def validateAddresses : List SocketAddr → List SocketAddr → Except ProtocolError Unit
  | _, [] => .ok ()
  | unique, address :: rest => do
    validatePort .resolveOk (canonicalizeAddress address).port
    if canonicalizeAddress address ∈ unique then
      .error (.duplicateAddress (canonicalizeAddress address))
    else validateAddresses (canonicalizeAddress address :: unique) rest

def validateAddressList (addresses : List SocketAddr) : Except ProtocolError Unit :=
  if maxResolveAddresses < addresses.length then .error (.tooManyAddresses addresses.length)
  else validateAddresses [] addresses

def Hello.validate (h : Hello) : Except ProtocolError Unit :=
  if h.minVersion = 0 ∨ h.maxVersion < h.minVersion ∨
      ¬(h.minVersion ≤ version ∧ version ≤ h.maxVersion) then
    .error (.invalidHello "version range does not include ALRD v1")
  else if ¬(1 ≤ h.maxData ∧ h.maxData ≤ maxDataPayload) then
    .error (.invalidHello "max_data is outside ALRD v1 bounds")
  else if ¬(1 ≤ h.receiveWindow ∧ h.receiveWindow ≤ initialWindow) then
    .error (.invalidHello "receive_window is outside ALRD v1 bounds")
  else if ¬(1 ≤ h.maxStreams ∧ h.maxStreams ≤ Rdp.maxStreams) then
    .error (.invalidHello "max_streams is outside ALRD v1 bounds")
  else .ok ()

def Frame.validate (f : Frame) : Except ProtocolError Unit := do
  validateStreamId f.messageType f.streamId
  match f with
  | .hello h => h.validate
  | .resolve _ port hostname =>
    validatePort f.messageType port
    validateWireHostname hostname
  | .resolveOk _ addresses => validateAddressList addresses
  | .openTo _ address => validatePort f.messageType address.port
  | .openOk _ bound => validatePort f.messageType bound.port
  | .openError _ _ diagnostic =>
    if maxDiagnosticLen < utf8Len diagnostic then .error (.diagnosticTooLong (utf8Len diagnostic))
    else if diagnostic.any isControl then .error .diagnosticContainsControl
    else .ok ()
  | .data _ payload =>
    if payload = [] then .error .emptyData
    else if maxDataPayload < payload.length then .error (.dataTooLarge payload.length)
    else .ok ()
  | .shutdownWrite _ | .close _ _ => .ok ()
  | .windowUpdate _ credit => if credit = 0 then .error .zeroWindowUpdate else .ok ()
  | .ping _ | .pong _ => .ok ()

/- What two valid advertisements agree on: limits inside the ALRD v1 bounds. -/
structure NegotiatedLimits where
  maxData : ℕ
  receiveWindow : ℕ
  maxStreams : ℕ
  maxData_pos : 1 ≤ maxData
  maxData_le : maxData ≤ maxDataPayload
  receiveWindow_pos : 1 ≤ receiveWindow
  receiveWindow_le : receiveWindow ≤ initialWindow
  maxStreams_pos : 1 ≤ maxStreams
  maxStreams_le : maxStreams ≤ Rdp.maxStreams

def oneStream : NegotiatedLimits where
  maxData := 1
  receiveWindow := 1
  maxStreams := 1
  maxData_pos := Nat.le_refl _
  maxData_le := by decide
  receiveWindow_pos := Nat.le_refl _
  receiveWindow_le := by decide
  maxStreams_pos := Nat.le_refl _
  maxStreams_le := by decide

theorem Hello.bounds_of_validate {h : Hello} (hv : h.validate = .ok ()) :
    (1 ≤ h.maxData ∧ h.maxData ≤ maxDataPayload) ∧
    (1 ≤ h.receiveWindow ∧ h.receiveWindow ≤ initialWindow) ∧
    (1 ≤ h.maxStreams ∧ h.maxStreams ≤ Rdp.maxStreams) := by
  unfold Hello.validate at hv
  split at hv
  · cases hv
  split at hv
  · cases hv
  split at hv
  · cases hv
  split at hv
  · cases hv
  · rename_i hd hw hs
    exact ⟨not_not.mp hd, not_not.mp hw, not_not.mp hs⟩

def Hello.negotiate (self peer : Hello) : Except ProtocolError NegotiatedLimits :=
  match hs : self.validate with
  | .error e => .error e
  | .ok _ =>
    match hp : peer.validate with
    | .error e => .error e
    | .ok _ =>
      if peer.role ≠ self.role.opposite then .error (.sameHelloRole self.role)
      else
        have hself := Hello.bounds_of_validate hs
        have hpeer := Hello.bounds_of_validate hp
        .ok {
          maxData := min self.maxData peer.maxData
          receiveWindow := min self.receiveWindow peer.receiveWindow
          maxStreams := min self.maxStreams peer.maxStreams
          maxData_pos := by omega
          maxData_le := by omega
          receiveWindow_pos := by omega
          receiveWindow_le := by omega
          maxStreams_pos := by omega
          maxStreams_le := by omega }

def Hello.new (role : Role) (nonce : ℕ) : Hello :=
  ⟨role, version, version, maxDataPayload, initialWindow, Rdp.maxStreams, nonce⟩

example : ((Hello.new .client 7).negotiate (Hello.new .agent 8)).isOk = true := by decide

end Alighieri.Rdp
