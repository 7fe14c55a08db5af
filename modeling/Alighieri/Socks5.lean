import Alighieri.Config
import Alighieri.Net.AddrSpec
import Alighieri.Lib.Endian

/-!
# SOCKS5 wire format (socks5.rs; errors.rs)

Readers take the bytes that are still to come and return what they read with the
rest; a stream that ends early is `unexpectedEof`. The UDP header is parsed from
one whole datagram.
-/

namespace Alighieri.Socks5
open Net Endian

abbrev Bytes := List UInt8

inductive IoKind where
  | connectionRefused | timedOut | addrNotAvailable | hostUnreachable | networkUnreachable
  | permissionDenied | unsupported | unexpectedEof | notConnected | invalidData | other
  deriving DecidableEq, Repr

inductive Error where
  | config (message : String)
  | io (kind : IoKind) (message : String)
  | protocol (message : String)
  | authFailed
  | accessDenied
  | commandNotSupported
  | timeout
  deriving DecidableEq, Repr

inductive Reply where
  | succeeded | generalFailure | connectionNotAllowed | networkUnreachable | hostUnreachable
  | connectionRefused | ttlExpired | commandNotSupported | addressTypeNotSupported
  deriving DecidableEq, Repr

def Error.display : Error → String
  | config message => "configuration error: " ++ message
  | io _ message => "I/O error: " ++ message
  | protocol message => "protocol error: " ++ message
  | authFailed => "authentication failed"
  | accessDenied => "access denied by rule"
  | commandNotSupported => "command not supported"
  | timeout => "operation timed out"

def Error.toReply : Error → Reply
  | .accessDenied | .authFailed => .connectionNotAllowed
  | .commandNotSupported => .commandNotSupported
  | .timeout => .ttlExpired
  | .io .connectionRefused _ => .connectionRefused
  | .io .timedOut _ => .ttlExpired
  | .io .addrNotAvailable _ | .io .hostUnreachable _ => .hostUnreachable
  | .io .networkUnreachable _ => .networkUnreachable
  | .io .permissionDenied _ => .connectionNotAllowed
  | .io .unsupported _ => .addressTypeNotSupported
  | .io _ _ => .networkUnreachable
  | .config _ | .protocol _ => .generalFailure

inductive Method where
  | noAuth
  | userPass
  | noAcceptable
  | other (b : UInt8)
  deriving DecidableEq, Repr

def Method.fromU8 (b : UInt8) : Method :=
  if b = 0 then .noAuth else if b = 2 then .userPass else if b = 255 then .noAcceptable
  else .other b

def toMethod : AuthKind → Method
  | .noAuth => .noAuth
  | .username => .userPass

def hexDigit (n : ℕ) : Char := if n < 10 then Char.ofNat (48 + n) else Char.ofNat (87 + n)

def hex2 (b : UInt8) : String := String.ofList [hexDigit (b.toNat / 16), hexDigit (b.toNat % 16)]

inductive TargetAddr where
  | ip (addr : SocketAddr)
  | domain (host : Text) (port : ℕ)
  deriving DecidableEq, Repr

namespace TargetAddr

def port : TargetAddr → ℕ
  | ip addr => addr.port
  | domain _ port => port

def host : TargetAddr → Option Text
  | ip _ => none
  | domain host _ => some host

end TargetAddr

def atypV4 : UInt8 := 1
def atypDomain : UInt8 := 3
def atypV6 : UInt8 := 4

def ipv4Of (octets : Bytes) : IpAddr := .v4 (BitVec.ofNat 32 (ofBe octets))
def ipv6Of (octets : Bytes) : IpAddr := .v6 (BitVec.ofNat 128 (ofBe octets))

def fromUtf8 (bytes : Bytes) : Option Text :=
  (ByteArray.utf8Decode? bytes.toByteArray).map Array.toList

theorem fromUtf8_asBytes (s : Text) : fromUtf8 (asBytes s) = some s := by
  have h : ByteArray.utf8Decode? (asBytes s).toByteArray = some s.toArray :=
    List.utf8Decode?_utf8Encode
  simp only [fromUtf8, h, Option.map_some]

theorem asBytes_inj {s t : Text} (h : asBytes s = asBytes t) : s = t := by
  have hs := fromUtf8_asBytes s
  rw [h, fromUtf8_asBytes] at hs
  exact (Option.some.inj hs).symm

theorem asBytes_of_fromUtf8 {bytes : Bytes} {s : Text} (h : fromUtf8 bytes = some s) :
    asBytes s = bytes := by
  obtain ⟨chars, hchars, rfl⟩ := Option.map_eq_some_iff.mp h
  have hsome : (ByteArray.utf8Decode? bytes.toByteArray).isSome = true := by
    rw [hchars]
    rfl
  have hback := @ByteArray.utf8Encode_get_utf8Decode? _ hsome
  simp only [hchars, Option.get_some] at hback
  have hdata : (asBytes chars.toList).toByteArray = bytes.toByteArray := hback
  exact List.toByteArray_inj.mp hdata

/-! ### Requests on the control connection -/

def eof : Error := .io .unexpectedEof "early eof"

def readU8 : Bytes → Except Error (UInt8 × Bytes)
  | [] => .error eof
  | b :: rest => .ok (b, rest)

def readExact (n : ℕ) (r : Bytes) : Except Error (Bytes × Bytes) :=
  if n ≤ r.length then .ok (r.take n, r.drop n) else .error eof

def readU16 (r : Bytes) : Except Error (ℕ × Bytes) := do
  let (bytes, rest) ← readExact 2 r
  .ok (ofBe bytes, rest)

def readDomain (r : Bytes) : Except Error (TargetAddr × Bytes) := do
  let (len, r) ← readU8 r
  if len = 0 then .error (.protocol "empty domain name")
  else
    let (raw, r) ← readExact len.toNat r
    match fromUtf8 raw with
    | none => .error (.protocol "domain name is not valid UTF-8")
    | some domain =>
      match validateHostname domain with
      | .error e => .error (.protocol ("domain name " ++ e))
      | .ok _ =>
        let (port, r) ← readU16 r
        .ok (.domain domain port, r)

def readTargetAddr (r : Bytes) : Except Error (TargetAddr × Bytes) := do
  let (atyp, r) ← readU8 r
  if atyp = atypV4 then
    let (octets, r) ← readExact 4 r
    let (port, r) ← readU16 r
    .ok (.ip (.new (ipv4Of octets) port), r)
  else if atyp = atypV6 then
    let (octets, r) ← readExact 16 r
    let (port, r) ← readU16 r
    .ok (.ip (.new (ipv6Of octets) port), r)
  else if atyp = atypDomain then readDomain r
  else .error (.io .unsupported ("unsupported address type 0x" ++ hex2 atyp))

structure Greeting where
  methods : List Method
  deriving DecidableEq, Repr

def readGreeting (r : Bytes) : Except Error (Greeting × Bytes) := do
  let (ver, r) ← readU8 r
  if ver ≠ 5 then .error (.protocol ("unsupported SOCKS version 0x" ++ hex2 ver))
  else
    let (nmethods, r) ← readU8 r
    if nmethods = 0 then .error (.protocol "client offered no auth methods")
    else
      let (raw, r) ← readExact nmethods.toNat r
      .ok (⟨raw.map Method.fromU8⟩, r)

structure UserPassCredentials where
  username : Text
  password : Text
  deriving DecidableEq, Repr

def readUserpass (r : Bytes) : Except Error (UserPassCredentials × Bytes) := do
  let (ver, r) ← readU8 r
  if ver ≠ 1 then .error (.protocol ("unsupported auth version 0x" ++ hex2 ver))
  else
    let (ulen, r) ← readU8 r
    let (ubuf, r) ← readExact ulen.toNat r
    let (plen, r) ← readU8 r
    let (pbuf, r) ← readExact plen.toNat r
    match fromUtf8 ubuf, fromUtf8 pbuf with
    | none, _ => .error (.protocol "username is not UTF-8")
    | some _, none => .error (.protocol "password is not UTF-8")
    | some username, some password =>
      if username = [] then .error (.protocol "empty username") else .ok (⟨username, password⟩, r)

def commandFromU8 (b : UInt8) : Except Error Command :=
  if b = 1 then .ok .connect
  else if b = 2 then .ok .bind
  else if b = 3 then .ok .udpAssociate
  else .error (.protocol ("unknown command byte 0x" ++ hex2 b))

structure Request where
  command : Command
  dest : TargetAddr
  deriving DecidableEq, Repr

def readRequest (r : Bytes) : Except Error (Request × Bytes) := do
  let (ver, r) ← readU8 r
  if ver ≠ 5 then
    .error (.protocol ("unsupported SOCKS version 0x" ++ hex2 ver ++ " in request"))
  else
    let (byte, r) ← readU8 r
    let cmd ← commandFromU8 byte
    let (rsv, r) ← readU8 r
    if rsv ≠ 0 then
      .error (.protocol ("request reserved byte must be 0x00, got 0x" ++ hex2 rsv))
    else
      let (dest, r) ← readTargetAddr r
      .ok (⟨cmd, dest⟩, r)

/-! ### UDP datagrams -/

structure UdpHeader where
  frag : UInt8
  dest : TargetAddr
  payloadOffset : ℕ
  deriving DecidableEq, Repr

/- The address part of `parse_udp_header`: what follows the ATYP byte, with the
offset of the payload. -/
def parseUdpDest (atyp : UInt8) (rest : Bytes) : Except Error (TargetAddr × ℕ) :=
  if atyp = atypV4 then
    if rest.length < 4 + 2 then .error (.protocol "UDP header truncated (v4)")
    else .ok (.ip (.new (ipv4Of (rest.take 4)) (ofBe ((rest.drop 4).take 2))), 10)
  else if atyp = atypV6 then
    if rest.length < 16 + 2 then .error (.protocol "UDP header truncated (v6)")
    else .ok (.ip (.new (ipv6Of (rest.take 16)) (ofBe ((rest.drop 16).take 2))), 22)
  else if atyp = atypDomain then
    match rest with
    | [] => .error (.protocol "UDP header truncated (domain len)")
    | len :: body =>
      if len = 0 then .error (.protocol "UDP empty domain name")
      else if body.length < len.toNat + 2 then .error (.protocol "UDP header truncated (domain)")
      else
        match fromUtf8 (body.take len.toNat) with
        | none => .error (.protocol "UDP domain not UTF-8")
        | some domain =>
          match validateHostname domain with
          | .error e => .error (.protocol ("UDP domain " ++ e))
          | .ok _ =>
            .ok (.domain domain (ofBe ((body.drop len.toNat).take 2)), 5 + len.toNat + 2)
  else .error (.protocol ("unsupported UDP address type 0x" ++ hex2 atyp))

def parseUdpHeader : Bytes → Except Error UdpHeader
  | r0 :: r1 :: frag :: atyp :: rest =>
    if r0 ≠ 0 ∨ r1 ≠ 0 then .error (.protocol "UDP reserved bytes must be 0x0000")
    else do
      let (dest, payloadOffset) ← parseUdpDest atyp rest
      .ok ⟨frag, dest, payloadOffset⟩
  | _ => .error (.protocol "UDP datagram too short for header")

/- The bytes `write_udp_header_tail` leaves in front of a payload. -/
def udpHeaderTail (src : SocketAddr) : Bytes :=
  match toCanonical src.ip with
  | .v4 ip => [0, 0, 0, atypV4] ++ beBytes 4 ip.toNat ++ beBytes 2 src.port
  | .v6 ip => [0, 0, 0, atypV6] ++ beBytes 16 ip.toNat ++ beBytes 2 src.port

theorem parseUdpHeader_frag {buf : Bytes} {h : UdpHeader} (hp : parseUdpHeader buf = .ok h) :
    buf[2]? = some h.frag := by
  match buf with
  | [] | [_] | [_, _] | [_, _, _] => cases hp
  | r0 :: r1 :: frag :: atyp :: rest =>
    simp only [parseUdpHeader] at hp
    split at hp
    · cases hp
    cases hd : parseUdpDest atyp rest with
    | error e => simp [hd, bind, Except.bind] at hp
    | ok d =>
      simp only [hd, bind, Except.bind, Except.ok.injEq] at hp
      rw [← hp]
      rfl

example : parseUdpHeader ([0, 0, 0, 1, 8, 8, 8, 8, 0, 53] ++ [7]) =
    .ok ⟨0, .ip (.v4 0x08080808 53), 10⟩ := by rfl

end Alighieri.Socks5
