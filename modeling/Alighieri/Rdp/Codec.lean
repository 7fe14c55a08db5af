import Alighieri.Rdp.Frame
import Alighieri.Socks5
import Alighieri.Lib.Reader

/-!
# The ALRD wire format (protocol.rs:14-210, 413-540, 764-964, 1015-1134)

`encodeInto` and `decodeExact` as the codec computes them. A `PayloadCursor` is a
reader over the bytes it has not consumed yet; its message type only shows in the
errors. `put_u16` and the others are `leBytes`.
-/

namespace Alighieri.Rdp
open Net Endian Socks5

def headerLen : ℕ := 16
def maxFramePayload : ℕ := 65536
def helloPayloadLen : ℕ := 24
def ipv4AddressLen : ℕ := 7
def ipv6AddressLen : ℕ := 23

def magic : Bytes := [65, 76, 82, 68]

/-! ### Tags -/

def MessageType.asU8 : MessageType → UInt8
  | .hello => 1
  | .resolve => 2
  | .resolveOk => 3
  | .openTo => 4
  | .openOk => 5
  | .openError => 6
  | .data => 7
  | .shutdownWrite => 8
  | .close => 9
  | .windowUpdate => 10
  | .ping => 11
  | .pong => 12

def MessageType.tryFrom : UInt8 → Except ProtocolError MessageType
  | 1 => .ok .hello
  | 2 => .ok .resolve
  | 3 => .ok .resolveOk
  | 4 => .ok .openTo
  | 5 => .ok .openOk
  | 6 => .ok .openError
  | 7 => .ok .data
  | 8 => .ok .shutdownWrite
  | 9 => .ok .close
  | 10 => .ok .windowUpdate
  | 11 => .ok .ping
  | 12 => .ok .pong
  | other => .error (.unknownMessageType other)

def Role.asU8 : Role → UInt8
  | .client => 1
  | .agent => 2

def Role.tryFrom : UInt8 → Except ProtocolError Role
  | 1 => .ok .client
  | 2 => .ok .agent
  | other => .error (.invalidRole other)

def OpenErrorCode.asU8 : OpenErrorCode → UInt8
  | .general => 1
  | .policyDenied => 2
  | .networkUnreachable => 3
  | .hostUnreachable => 4
  | .connectionRefused => 5
  | .timeout => 6
  | .addressTypeUnsupported => 7
  | .resourceLimit => 8

def OpenErrorCode.tryFrom : UInt8 → Except ProtocolError OpenErrorCode
  | 1 => .ok .general
  | 2 => .ok .policyDenied
  | 3 => .ok .networkUnreachable
  | 4 => .ok .hostUnreachable
  | 5 => .ok .connectionRefused
  | 6 => .ok .timeout
  | 7 => .ok .addressTypeUnsupported
  | 8 => .ok .resourceLimit
  | other => .error (.invalidOpenErrorCode other)

def CloseReason.asU8 : CloseReason → UInt8
  | .normal => 0
  | .cancelled => 1
  | .protocol => 2
  | .io => 3
  | .resourceLimit => 4

def CloseReason.tryFrom : UInt8 → Except ProtocolError CloseReason
  | 0 => .ok .normal
  | 1 => .ok .cancelled
  | 2 => .ok .protocol
  | 3 => .ok .io
  | 4 => .ok .resourceLimit
  | other => .error (.invalidCloseReason other)

@[simp] theorem MessageType.tryFrom_asU8 (ty : MessageType) : tryFrom ty.asU8 = .ok ty := by
  cases ty <;> rfl

@[simp] theorem Role.tryFrom_asU8 (role : Role) : tryFrom role.asU8 = .ok role := by
  cases role <;> rfl

@[simp] theorem OpenErrorCode.tryFrom_asU8 (code : OpenErrorCode) :
    tryFrom code.asU8 = .ok code := by
  cases code <;> rfl

@[simp] theorem CloseReason.tryFrom_asU8 (reason : CloseReason) :
    tryFrom reason.asU8 = .ok reason := by
  cases reason <;> rfl

/-! ### Encoding -/

def encodeAddress (address : SocketAddr) : Bytes :=
  match canonicalizeAddress address with
  | .v4 ip port => [1] ++ leBytes 2 port ++ beBytes 4 ip.toNat
  | .v6 ip port _ scope => [2] ++ leBytes 2 port ++ beBytes 16 ip.toNat ++ leBytes 4 scope

def Frame.encodePayload : Frame → Bytes
  | .hello h =>
    [h.role.asU8, UInt8.ofNat h.minVersion, UInt8.ofNat h.maxVersion, 0] ++
      leBytes 4 h.maxData ++ leBytes 4 h.receiveWindow ++ leBytes 4 h.maxStreams ++
      leBytes 8 h.generationNonce
  | .resolve _ port hostname =>
    leBytes 2 port ++ leBytes 2 (utf8Len hostname) ++ asBytes hostname
  | .resolveOk _ addresses => leBytes 2 addresses.length ++ addresses.flatMap encodeAddress
  | .openTo _ address => encodeAddress address
  | .openOk _ bound => encodeAddress bound
  | .openError _ code diagnostic =>
    [code.asU8] ++ leBytes 2 (utf8Len diagnostic) ++ asBytes diagnostic
  | .data _ payload => payload
  | .shutdownWrite _ => []
  | .close _ reason => [reason.asU8]
  | .windowUpdate _ credit => leBytes 4 credit
  | .ping nonce | .pong nonce => leBytes 8 nonce

def Frame.header (f : Frame) (payloadLen : ℕ) : Bytes :=
  magic ++ [UInt8.ofNat version, f.messageType.asU8] ++ leBytes 2 0 ++ leBytes 4 f.streamId ++
    leBytes 4 payloadLen

def Frame.encodeInto (f : Frame) (output : Bytes) : Except ProtocolError Unit × Bytes :=
  match f.validate with
  | .error e => (.error e, output)
  | .ok _ =>
    if maxFramePayload < f.encodePayload.length then
      (.error (.payloadTooLarge f.encodePayload.length), output)
    else (.ok (), output ++ (f.header f.encodePayload.length ++ f.encodePayload))

def Frame.encode (f : Frame) : Except ProtocolError Bytes :=
  match f.encodeInto [] with
  | (.error e, _) => .error e
  | (.ok _, encoded) => .ok encoded

/-! ### The payload cursor -/

abbrev PayloadCursor := Reader ProtocolError UInt8

namespace PayloadCursor

variable (ty : MessageType)

def bytes (len : ℕ) (field : String) : PayloadCursor Bytes :=
  Reader.take len (.truncatedPayload ty field)

def advance (len : ℕ) (field : String) : PayloadCursor Unit := do
  let _ ← bytes ty len field
  pure ()

def u8 (field : String) : PayloadCursor UInt8 := do
  let taken ← bytes ty 1 field
  pure (taken.headD 0)

/- `u16`, `u32` and `u64` are the widths 2, 4 and 8. -/
def uint (width : ℕ) (field : String) : PayloadCursor ℕ := do
  let taken ← bytes ty width field
  pure (ofLe taken)

def u16 (field : String) : PayloadCursor ℕ := uint ty 2 field
def u32 (field : String) : PayloadCursor ℕ := uint ty 4 field
def u64 (field : String) : PayloadCursor ℕ := uint ty 8 field

def requireExactLen (expected : ℕ) : PayloadCursor Unit :=
  Reader.exactly expected (.truncatedPayload ty "fixed payload") (.trailingPayload ty)

def finish : PayloadCursor Unit := fun rest =>
  if rest.length = 0 then .ok ((), rest) else .error (.trailingPayload ty rest.length)

end PayloadCursor

/-! ### Decoding -/

/- The check that opens `decode_address` and `decode_address_with_type`: the
family and the length it needs. -/
def addressNeeded (ty : MessageType) (input : Bytes) : Except ProtocolError (UInt8 × ℕ) :=
  match input with
  | [] => .error (.truncatedPayload ty "address family")
  | family :: _ =>
    if family ≠ 1 ∧ family ≠ 2 then .error (.invalidAddressFamily family)
    else
      let needed := if family = 1 then ipv4AddressLen else ipv6AddressLen
      if input.length < needed then .error (.truncatedPayload ty "address")
      else .ok (family, needed)

def decodeAddress (input : Bytes) : Except ProtocolError (SocketAddr × ℕ) := do
  let (family, needed) ← addressNeeded .openTo input
  let port := ofLe ((input.drop 1).take 2)
  let address :=
    if family = 1 then SocketAddr.v4 (BitVec.ofNat 32 (ofBe ((input.drop 3).take 4))) port
    else SocketAddr.v6 (BitVec.ofNat 128 (ofBe ((input.drop 3).take 16))) port 0
      (ofLe ((input.drop 19).take 4))
  .ok (canonicalizeAddress address, needed)

def decodeAddressWithType (input : Bytes) (ty : MessageType) :
    Except ProtocolError (SocketAddr × ℕ) := do
  let _ ← addressNeeded ty input
  decodeAddress input

/- `decode_address_with_type(cursor.remaining(), ty)` and the `advance` after it. -/
def readAddress (ty : MessageType) (field : String) : PayloadCursor SocketAddr := do
  let remaining ← get
  let (address, consumed) ← Reader.ofExcept (decodeAddressWithType remaining ty)
  PayloadCursor.advance ty consumed field
  pure address

/- The loop over the candidates of RESOLVE_OK; `addresses` are those read so far,
which are also the members of `unique`. -/
def readAddresses (ty : MessageType) : ℕ → List SocketAddr → PayloadCursor (List SocketAddr)
  | 0, addresses => pure addresses
  | n + 1, addresses => do
    let address ← readAddress ty "address"
    if address ∈ addresses then throw (.duplicateAddress address)
    else readAddresses ty n (addresses ++ [address])

structure Header where
  messageType : MessageType
  streamId : ℕ
  payloadLen : ℕ
  deriving DecidableEq, Repr

def Header.decode (header : Bytes) : Except ProtocolError Header := do
  if header.length < headerLen then .error (.truncatedHeader header.length)
  else if header.take 4 ≠ magic then .error .invalidMagic
  else if header.getD 4 0 ≠ UInt8.ofNat version then
    .error (.unsupportedVersion (header.getD 4 0))
  else
    let messageType ← MessageType.tryFrom (header.getD 5 0)
    let flags := ofLe ((header.drop 6).take 2)
    if flags ≠ 0 then .error (.nonZeroFlags flags)
    else
      let streamId := ofLe ((header.drop 8).take 4)
      validateStreamId messageType streamId
      let payloadLen := ofLe ((header.drop 12).take 4)
      if maxFramePayload < payloadLen then .error (.payloadTooLarge payloadLen)
      else .ok ⟨messageType, streamId, payloadLen⟩

open PayloadCursor

def readHello (ty : MessageType) : PayloadCursor Hello := do
  requireExactLen ty helloPayloadLen
  let role ← Reader.ofExcept (Role.tryFrom (← u8 ty "role"))
  let minVersion ← u8 ty "min_version"
  let maxVersion ← u8 ty "max_version"
  let reserved ← u8 ty "reserved"
  if reserved ≠ 0 then throw (.nonZeroHelloReserved reserved)
  else
    let maxData ← u32 ty "max_data"
    let receiveWindow ← u32 ty "receive_window"
    let maxStreams ← u32 ty "max_streams"
    let generationNonce ← u64 ty "generation_nonce"
    let hello : Hello := ⟨role, minVersion.toNat, maxVersion.toNat, maxData, receiveWindow,
      maxStreams, generationNonce⟩
    Reader.ofExcept hello.validate
    pure hello

def readResolve (ty : MessageType) (id : ℕ) : PayloadCursor Frame := do
  let port ← u16 ty "port"
  let nameLen ← u16 ty "name_len"
  if maxHostnameLen < nameLen then throw (.hostnameTooLong nameLen)
  else
    let raw ← bytes ty nameLen "hostname"
    match fromUtf8 raw with
    | none => throw .hostnameNotUtf8
    | some hostname =>
      Reader.ofExcept (validateWireHostname hostname)
      pure (.resolve id port hostname)

def readResolveOk (ty : MessageType) (id : ℕ) : PayloadCursor Frame := do
  let count ← u16 ty "count"
  if maxResolveAddresses < count then throw (.tooManyAddresses count)
  else
    let addresses ← readAddresses ty count []
    pure (.resolveOk id addresses)

def readOpenError (ty : MessageType) (id : ℕ) : PayloadCursor Frame := do
  let code ← Reader.ofExcept (OpenErrorCode.tryFrom (← u8 ty "code"))
  let textLen ← u16 ty "text_len"
  if maxDiagnosticLen < textLen then throw (.diagnosticTooLong textLen)
  else
    match fromUtf8 (← bytes ty textLen "diagnostic") with
    | none => throw .diagnosticNotUtf8
    | some diagnostic => pure (.openError id code diagnostic)

def readData (ty : MessageType) (id : ℕ) : PayloadCursor Frame := do
  let payload ← get
  if payload = [] then throw .emptyData
  else if maxDataPayload < payload.length then throw (.dataTooLarge payload.length)
  else
    advance ty payload.length "data"
    pure (.data id payload)

def readClose (ty : MessageType) (id : ℕ) : PayloadCursor Frame := do
  requireExactLen ty 1
  let reason ← Reader.ofExcept (CloseReason.tryFrom (← u8 ty "reason"))
  pure (.close id reason)

def readWindowUpdate (ty : MessageType) (id : ℕ) : PayloadCursor Frame := do
  requireExactLen ty 4
  let credit ← u32 ty "credit"
  if credit = 0 then throw .zeroWindowUpdate else pure (.windowUpdate id credit)

def readNonce (ty : MessageType) : PayloadCursor ℕ := do
  requireExactLen ty 8
  u64 ty "nonce"

def readPayload (ty : MessageType) (id : ℕ) : PayloadCursor Frame :=
  match ty with
  | .hello => Frame.hello <$> readHello ty
  | .resolve => readResolve ty id
  | .resolveOk => readResolveOk ty id
  | .openTo => Frame.openTo id <$> readAddress ty "address"
  | .openOk => Frame.openOk id <$> readAddress ty "bound address"
  | .openError => readOpenError ty id
  | .data => readData ty id
  | .shutdownWrite => (fun _ => Frame.shutdownWrite id) <$> requireExactLen ty 0
  | .close => readClose ty id
  | .windowUpdate => readWindowUpdate ty id
  | .ping => Frame.ping <$> readNonce ty
  | .pong => Frame.pong <$> readNonce ty

def readWhole (ty : MessageType) (id : ℕ) : PayloadCursor Frame := do
  let frame ← readPayload ty id
  finish ty
  Reader.ofExcept frame.validate
  pure frame

def decodePayload (header : Header) (payload : Bytes) : Except ProtocolError Frame :=
  (readWhole header.messageType header.streamId).run' payload

def decodeExact (encoded : Bytes) : Except ProtocolError Frame := do
  if encoded.length < headerLen then .error (.truncatedHeader encoded.length)
  else
    let header ← Header.decode (encoded.take headerLen)
    let expected := headerLen + header.payloadLen
    if encoded.length < expected then
      .error (.truncatedFrame header.messageType expected encoded.length)
    else if expected < encoded.length then .error (.trailingFrameBytes (encoded.length - expected))
    else decodePayload header (encoded.drop headerLen)

example : (Frame.ping 7).encode = .ok ([65, 76, 82, 68, 1, 11, 0, 0, 0, 0, 0, 0, 8, 0, 0, 0] ++
    [7, 0, 0, 0, 0, 0, 0, 0]) := by rfl

end Alighieri.Rdp
