import Alighieri.Rdp.Codec

/-!
# Encoding and decoding ALRD frames are inverse

What an endpoint can hold is a `WireFrame`: its numbers have the widths of the
source's integer types. A valid one comes back from its bytes with canonical
addresses, and everything that is accepted from the wire is such a frame already.
-/

namespace Alighieri
open Net Endian Socks5 List Reader Rdp.Frame Reader.Meets

variable {hostname : Text} {addresses : List SocketAddr} {a : SocketAddr} {f : Rdp.Frame}
  {id len port : ℕ}

/-! ### Integer widths -/

def Net.SocketAddr.Typed : SocketAddr → Prop
  | .v4 _ port => port < 256 ^ 2
  | .v6 _ port flowinfo scope => port < 256 ^ 2 ∧ flowinfo < 256 ^ 4 ∧ scope < 256 ^ 4

theorem Net.SocketAddr.Typed.canonicalize (h : a.Typed) : (canonicalizeAddress a).Typed := by
  cases a with
  | v4 => exact h
  | v6 =>
    simp only [canonicalizeAddress]
    split
    · exact h.1
    · exact ⟨h.1, by decide, h.2.2⟩

namespace Rdp

structure Hello.Typed (h : Hello) : Prop where
  minVersion : h.minVersion < 256
  maxVersion : h.maxVersion < 256
  maxData : h.maxData < 256 ^ 4
  receiveWindow : h.receiveWindow < 256 ^ 4
  maxStreams : h.maxStreams < 256 ^ 4
  generationNonce : h.generationNonce < 256 ^ 8

/- The payload of a frame fits its integer types. -/
def Frame.BodyTyped : Frame → Prop
  | .hello h => h.Typed
  | .resolve _ port _ => port < 256 ^ 2
  | .resolveOk _ addresses => ∀ a ∈ addresses, a.Typed
  | .openTo _ address => address.Typed
  | .openOk _ bound => bound.Typed
  | .windowUpdate _ credit => credit < 256 ^ 4
  | .ping nonce | .pong nonce => nonce < 256 ^ 8
  | .openError _ _ _ | .data _ _ | .shutdownWrite _ | .close _ _ => True

structure Frame.Typed (f : Frame) : Prop where
  id : f.streamId < 256 ^ 4
  body : f.BodyTyped

/-- A value of the source's type `Frame`. -/
structure WireFrame where
  frame : Frame
  typed : frame.Typed

/- The frame with its addresses as they travel. -/
def Frame.canonical : Frame → Frame
  | .resolveOk id addresses => .resolveOk id (addresses.map canonicalizeAddress)
  | .openTo id address => .openTo id (canonicalizeAddress address)
  | .openOk id bound => .openOk id (canonicalizeAddress bound)
  | f => f

/-! ### Validation does not see how an address is written -/

theorem validateAddresses_map (unique addresses : List SocketAddr) :
    validateAddresses unique (addresses.map canonicalizeAddress) =
      validateAddresses unique addresses := by
  induction addresses generalizing unique with
  | nil => rfl
  | cons a rest ih => simp only [map_cons, validateAddresses, canonicalizeAddress_idem, ih]

theorem validate_canonical (f : Frame) : f.canonical.validate = f.validate := by
  cases f with
  | resolveOk =>
    simp only [canonical, validate, messageType, streamId,
      validateAddressList, length_map, validateAddresses_map]
  | openTo | openOk =>
    simp only [canonical, validate, messageType, streamId,
      canonicalizeAddress_port]
  | _ => rfl

/- What `validate` guarantees of a payload, as far as the codec needs it. -/
def Frame.BodyValid : Frame → Prop
  | .hello h => h.validate = .ok ()
  | .resolve _ _ hostname => validateWireHostname hostname = .ok ()
  | .resolveOk _ addresses => validateAddressList addresses = .ok ()
  | .openError _ _ diagnostic => utf8Len diagnostic ≤ maxDiagnosticLen
  | .data _ payload => payload ≠ [] ∧ payload.length ≤ maxDataPayload
  | .windowUpdate _ credit => credit ≠ 0
  | .openTo _ _ | .openOk _ _ | .shutdownWrite _ | .close _ _ | .ping _ | .pong _ => True

theorem bodyValid_of_validate (h : f.validate = .ok ()) :
    validateStreamId f.messageType f.streamId = .ok () ∧ f.BodyValid := by
  obtain ⟨u, hid, hbody⟩ := Except.of_bind_ok h
  refine ⟨hid, ?_⟩
  cases f with
  | hello | resolveOk => exact hbody
  | resolve =>
    obtain ⟨u, -, hname⟩ := Except.of_bind_ok hbody
    exact hname
  | openError id code diagnostic =>
    dsimp only at hbody
    split at hbody
    · cases hbody
    · rename_i hlen
      exact Nat.le_of_not_lt hlen
  | data id payload =>
    dsimp only at hbody
    split at hbody
    · cases hbody
    split at hbody
    · cases hbody
    · rename_i hne hlen
      exact ⟨hne, Nat.le_of_not_lt hlen⟩
  | windowUpdate id credit =>
    dsimp only at hbody
    split at hbody
    · cases hbody
    · rename_i hpos
      exact hpos
  | _ => trivial

theorem hostname_length_le (h : validateWireHostname hostname = .ok ()) :
    utf8Len hostname ≤ maxHostnameLen := by
  refine Nat.le_of_not_lt ?_
  intro hlong
  simp only [validateWireHostname, if_pos hlong] at h
  split at h <;> cases h

theorem addresses_length_le (h : validateAddressList addresses = .ok ()) :
    addresses.length ≤ maxResolveAddresses ∧ validateAddresses [] addresses = .ok () := by
  unfold validateAddressList at h
  split at h
  · cases h
  · rename_i hcount
    exact ⟨Nat.le_of_not_lt hcount, h⟩

/-! ### Reading back single fields -/

namespace PayloadCursor

variable (ty : MessageType) (field : String)

theorem run_bytes (taken rest : Bytes) (h : taken.length = len) :
    (bytes ty len field).run (taken ++ rest) = .ok (taken, rest) :=
  run_take taken rest h

theorem run_advance (taken rest : Bytes) (h : taken.length = len) :
    (advance ty len field).run (taken ++ rest) = .ok ((), rest) :=
  run_bind (run_bytes ty field taken rest h)

theorem run_u8 (b : UInt8) (rest : Bytes) : (u8 ty field).run (b :: rest) = .ok (b, rest) :=
  run_bind (run_bytes ty field [b] rest rfl)

theorem run_uint {width v : ℕ} (h : v < 256 ^ width) (rest : Bytes) :
    (uint ty width field).run (leBytes width v ++ rest) = .ok (v, rest) := by
  refine (run_bind (run_bytes ty field _ rest (leBytes_length width v))).trans ?_
  rw [ofLe_leBytes h]
  rfl

theorem run_requireExactLen {n : ℕ} {input : Bytes} (h : input.length = n) :
    (requireExactLen ty n).run input = .ok ((), input) :=
  run_exactly h

theorem run_finish : (finish ty).run [] = .ok ((), []) := rfl

end PayloadCursor

open PayloadCursor

/-! ### Addresses -/

theorem canonical_cases (a : SocketAddr) :
    (∃ ip, canonicalizeAddress a = .v4 ip a.port) ∨
      ∃ ip scope, canonicalizeAddress a = .v6 ip a.port 0 scope := by
  cases a with
  | v4 ip => exact .inl ⟨ip, rfl⟩
  | v6 ip port flowinfo scope =>
    simp only [canonicalizeAddress]
    split
    · rename_i v4 _
      exact .inl ⟨v4, rfl⟩
    · rename_i v6 _
      exact .inr ⟨v6, scope, rfl⟩

theorem encodeAddress_length_le (a : SocketAddr) : (encodeAddress a).length ≤ 23 := by
  rcases canonical_cases a with ⟨ip, h⟩ | ⟨ip, scope, h⟩ <;>
    simp [encodeAddress, h]

theorem ofBe_octets {w : ℕ} (ip : BitVec (8 * w)) :
    BitVec.ofNat (8 * w) (ofBe (beBytes w ip.toNat)) = ip := by
  have hlt : ip.toNat < 256 ^ w := by
    have h := ip.isLt
    rwa [Nat.pow_mul] at h
  rw [ofBe_beBytes hlt, BitVec.ofNat_toNat, BitVec.setWidth_eq]

theorem decodeAddress_v4 {ip : BitVec 32} (hp : port < 256 ^ 2) (ty : MessageType) (rest : Bytes) :
    decodeAddressWithType ([1] ++ leBytes 2 port ++ beBytes 4 ip.toNat ++ rest) ty =
      .ok (.v4 ip port, 7) := by
  have hport : ofLe (leBytes 2 port) = port := ofLe_leBytes hp
  have hip : BitVec.ofNat 32 (ofBe (beBytes 4 ip.toNat)) = ip := ofBe_octets (w := 4) ip
  show Except.ok (SocketAddr.v4 (BitVec.ofNat 32 (ofBe (beBytes 4 ip.toNat)))
    (ofLe (leBytes 2 port)), 7) = _
  rw [hport, hip]

theorem decodeAddress_v6 {ip : BitVec 128} {scope : ℕ} (hp : port < 256 ^ 2)
    (hs : scope < 256 ^ 4) (ty : MessageType) (rest : Bytes) :
    decodeAddressWithType
        ([2] ++ leBytes 2 port ++ beBytes 16 ip.toNat ++ leBytes 4 scope ++ rest) ty =
      .ok (canonicalizeAddress (.v6 ip port 0 scope), 23) := by
  have hport : ofLe (leBytes 2 port) = port := ofLe_leBytes hp
  have hscope : ofLe (leBytes 4 scope) = scope := ofLe_leBytes hs
  have hip : BitVec.ofNat 128 (ofBe (beBytes 16 ip.toNat)) = ip := ofBe_octets (w := 16) ip
  show Except.ok (canonicalizeAddress (.v6 (BitVec.ofNat 128 (ofBe (beBytes 16 ip.toNat)))
    (ofLe (leBytes 2 port)) 0 (ofLe (leBytes 4 scope))), 23) = _
  rw [hport, hscope, hip]

theorem decodeAddress_encodeAddress (h : a.Typed) (ty : MessageType) (rest : Bytes) :
    decodeAddressWithType (encodeAddress a ++ rest) ty =
      .ok (canonicalizeAddress a, (encodeAddress a).length) := by
  have htyped := h.canonicalize
  rcases canonical_cases a with ⟨ip, hc⟩ | ⟨ip, scope, hc⟩
  · rw [hc] at htyped
    simp only [encodeAddress, hc]
    exact decodeAddress_v4 htyped ty rest
  · have hidem := canonicalizeAddress_idem a
    rw [hc] at htyped hidem
    simp only [encodeAddress, hc]
    rw [decodeAddress_v6 htyped.1 htyped.2.2, hidem]
    rfl

theorem run_readAddress (h : a.Typed) (ty : MessageType) (field : String) (rest : Bytes) :
    (readAddress ty field).run (encodeAddress a ++ rest) = .ok (canonicalizeAddress a, rest) := by
  have hget : (get : PayloadCursor Bytes).run (encodeAddress a ++ rest) =
      .ok (encodeAddress a ++ rest, encodeAddress a ++ rest) := rfl
  refine (run_bind hget).trans ?_
  refine (run_ofExcept (decodeAddress_encodeAddress h ty rest) _).trans ?_
  exact run_bind (run_advance ty field (encodeAddress a) rest rfl)

/- The checks of the loop are those of `validate_address_list`: an address that is
new to `unique` is not among those read so far. -/
theorem run_readAddresses (ty : MessageType) (addresses sofar : List SocketAddr)
    {unique : List SocketAddr} (hsofar : ∀ a ∈ sofar, a ∈ unique)
    (hv : validateAddresses unique addresses = .ok ()) (ht : ∀ a ∈ addresses, a.Typed)
    (rest : Bytes) :
    (readAddresses ty addresses.length sofar).run (addresses.flatMap encodeAddress ++ rest) =
      .ok (sofar ++ addresses.map canonicalizeAddress, rest) := by
  induction addresses generalizing unique sofar with
  | nil =>
    rw [map_nil, append_nil]
    rfl
  | cons a later ih =>
    obtain ⟨u, -, hv⟩ := Except.of_bind_ok hv
    have hnew : canonicalizeAddress a ∉ unique := by
      intro hmem
      rw [if_pos hmem] at hv
      cases hv
    rw [if_neg hnew] at hv
    have hfresh : canonicalizeAddress a ∉ sofar := fun hmem => hnew (hsofar _ hmem)
    have hnext : ∀ b ∈ sofar ++ [canonicalizeAddress a], b ∈ canonicalizeAddress a :: unique := by
      intro b hb
      rcases mem_append.mp hb with hb | hb
      · exact mem_cons_of_mem _ (hsofar b hb)
      · rw [mem_singleton.mp hb]
        exact mem_cons_self
    rw [flatMap_cons, append_assoc]
    refine (run_bind (run_readAddress (ht a mem_cons_self) ty "address" _)).trans ?_
    rw [if_neg hfresh, ih _ hnext hv fun b hb => ht b (mem_cons_of_mem _ hb)]
    rw [append_assoc]
    rfl

/-! ### Payloads -/

theorem run_readHello {h : Hello} (ht : h.Typed) (hv : h.validate = .ok ()) :
    (readHello .hello).run (Frame.hello h).encodePayload = .ok (h, []) := by
  have hmin : (UInt8.ofNat h.minVersion).toNat = h.minVersion := by
    rw [UInt8.toNat_ofNat', Nat.mod_eq_of_lt ht.minVersion]
  have hmax : (UInt8.ofNat h.maxVersion).toNat = h.maxVersion := by
    rw [UInt8.toNat_ofNat', Nat.mod_eq_of_lt ht.maxVersion]
  have hlen : (Frame.hello h).encodePayload.length = helloPayloadLen := by
    simp [encodePayload, helloPayloadLen]
  have hnonce := run_uint .hello "generation_nonce" ht.generationNonce []
  rw [append_nil] at hnonce
  refine (run_bind (run_requireExactLen .hello hlen)).trans ?_
  simp only [encodePayload, append_assoc, cons_append, nil_append]
  refine (run_bind (run_u8 _ _ _ _)).trans ?_
  refine (run_ofExcept (Role.tryFrom_asU8 _) _).trans ?_
  refine (run_bind (run_u8 _ _ _ _)).trans ?_
  refine (run_bind (run_u8 _ _ _ _)).trans ?_
  refine (run_bind (run_u8 _ _ _ _)).trans ?_
  rw [if_neg (by decide)]
  refine (run_bind (run_uint _ _ ht.maxData _)).trans ?_
  refine (run_bind (run_uint _ _ ht.receiveWindow _)).trans ?_
  refine (run_bind (run_uint _ _ ht.maxStreams _)).trans ?_
  refine (run_bind hnonce).trans ?_
  rw [hmin, hmax]
  exact run_ofExcept hv []

theorem run_readResolve (hp : port < 256 ^ 2) (hv : validateWireHostname hostname = .ok ()) :
    (readResolve .resolve id).run (Frame.resolve id port hostname).encodePayload =
      .ok (.resolve id port hostname, []) := by
  have hlen := hostname_length_le hv
  have hfits : utf8Len hostname < 256 ^ 2 := by
    unfold maxHostnameLen at hlen
    omega
  have hbytes := run_bytes .resolve "hostname" (asBytes hostname) [] (asBytes_length hostname)
  rw [append_nil] at hbytes
  simp only [encodePayload, append_assoc]
  refine (run_bind (run_uint _ _ hp _)).trans ?_
  refine (run_bind (run_uint _ _ hfits _)).trans ?_
  rw [if_neg (Nat.not_lt.mpr hlen)]
  refine (run_bind hbytes).trans ?_
  rw [fromUtf8_asBytes]
  exact run_ofExcept hv []

theorem run_readResolveOk (ht : ∀ a ∈ addresses, a.Typed)
    (hv : validateAddressList addresses = .ok ()) :
    (readResolveOk .resolveOk id).run (Frame.resolveOk id addresses).encodePayload =
      .ok (.resolveOk id (addresses.map canonicalizeAddress), []) := by
  obtain ⟨hcount, hv⟩ := addresses_length_le hv
  have hfits : addresses.length < 256 ^ 2 := by
    unfold maxResolveAddresses at hcount
    omega
  have hread := run_readAddresses .resolveOk addresses [] (fun a ha => nomatch ha) hv ht []
  rw [append_nil] at hread
  refine (run_bind (run_uint _ _ hfits _)).trans ?_
  rw [if_neg (Nat.not_lt.mpr hcount)]
  exact run_bind hread

theorem run_readOpenError {code : OpenErrorCode} {diagnostic : Text}
    (hlen : utf8Len diagnostic ≤ maxDiagnosticLen) :
    (readOpenError .openError id).run (Frame.openError id code diagnostic).encodePayload =
      .ok (.openError id code diagnostic, []) := by
  have hfits : utf8Len diagnostic < 256 ^ 2 := by
    unfold maxDiagnosticLen at hlen
    omega
  have hbytes := run_bytes .openError "diagnostic" (asBytes diagnostic) []
    (asBytes_length diagnostic)
  rw [append_nil] at hbytes
  simp only [encodePayload, cons_append, nil_append]
  refine (run_bind (run_u8 _ _ _ _)).trans ?_
  refine (run_ofExcept (OpenErrorCode.tryFrom_asU8 _) _).trans ?_
  refine (run_bind (run_uint _ _ hfits _)).trans ?_
  rw [if_neg (Nat.not_lt.mpr hlen)]
  refine (run_bind hbytes).trans ?_
  rw [fromUtf8_asBytes]
  rfl

theorem run_readData {payload : Bytes} (hne : payload ≠ [])
    (hlen : payload.length ≤ maxDataPayload) :
    (readData .data id).run payload = .ok (.data id payload, []) := by
  have hget : (get : PayloadCursor Bytes).run payload = .ok (payload, payload) := rfl
  have hall := run_advance .data "data" payload [] rfl
  rw [append_nil] at hall
  refine (run_bind hget).trans ?_
  rw [if_neg hne, if_neg (Nat.not_lt.mpr hlen)]
  exact run_bind hall

theorem run_readClose (id : ℕ) (reason : CloseReason) :
    (readClose .close id).run [reason.asU8] = .ok (.close id reason, []) := by
  have hlen : [reason.asU8].length = 1 := rfl
  refine (run_bind (run_requireExactLen .close hlen)).trans ?_
  refine (run_bind (run_u8 _ _ _ _)).trans ?_
  exact run_ofExcept (CloseReason.tryFrom_asU8 _) _

theorem run_readWindowUpdate {credit : ℕ} (ht : credit < 256 ^ 4) (hpos : credit ≠ 0) :
    (readWindowUpdate .windowUpdate id).run (leBytes 4 credit) =
      .ok (.windowUpdate id credit, []) := by
  have hread := run_uint .windowUpdate "credit" ht []
  rw [append_nil] at hread
  refine (run_bind (run_requireExactLen .windowUpdate (leBytes_length 4 credit))).trans ?_
  refine (run_bind hread).trans ?_
  rw [if_neg hpos]
  rfl

theorem run_readNonce (ty : MessageType) {nonce : ℕ} (ht : nonce < 256 ^ 8) :
    (readNonce ty).run (leBytes 8 nonce) = .ok (nonce, []) := by
  have hread := run_uint ty "nonce" ht []
  rw [append_nil] at hread
  exact (run_bind (run_requireExactLen ty (leBytes_length 8 nonce))).trans hread

theorem run_readPayload (ht : f.BodyTyped) (hv : f.BodyValid) :
    (readPayload f.messageType f.streamId).run f.encodePayload = .ok (f.canonical, []) := by
  cases f with
  | hello h => exact run_map (run_readHello ht hv)
  | resolve => exact run_readResolve ht hv
  | resolveOk => exact run_readResolveOk ht hv
  | openTo id address =>
    have hread := run_readAddress ht .openTo "address" []
    rw [append_nil] at hread
    exact run_map hread
  | openOk id bound =>
    have hread := run_readAddress ht .openOk "bound address" []
    rw [append_nil] at hread
    exact run_map hread
  | openError => exact run_readOpenError hv
  | data => exact run_readData hv.1 hv.2
  | shutdownWrite id => rfl
  | close id reason => exact run_readClose id reason
  | windowUpdate => exact run_readWindowUpdate ht hv
  | ping => exact run_map (run_readNonce .ping ht)
  | pong => exact run_map (run_readNonce .pong ht)

/-! ### Frames -/

theorem decodePayload_encodePayload (ht : f.BodyTyped) (hv : f.validate = .ok ()) (len : ℕ) :
    decodePayload ⟨f.messageType, f.streamId, len⟩ f.encodePayload = .ok f.canonical := by
  have hwhole : (readWhole f.messageType f.streamId).run f.encodePayload = .ok (f.canonical, []) := by
    refine (run_bind (run_readPayload ht (bodyValid_of_validate hv).2)).trans ?_
    refine (run_bind (run_finish f.messageType)).trans ?_
    exact run_ofExcept (by rw [validate_canonical, hv]) []
  show Prod.fst <$> (readWhole f.messageType f.streamId).run f.encodePayload = _
  rw [hwhole]
  rfl

theorem header_length (f : Frame) (len : ℕ) : (f.header len).length = headerLen := by
  simp [header, magic, headerLen]

theorem decode_header (hid : f.streamId < 256 ^ 4)
    (hv : validateStreamId f.messageType f.streamId = .ok ()) (hlen : len ≤ maxFramePayload) :
    Header.decode (f.header len) = .ok ⟨f.messageType, f.streamId, len⟩ := by
  have hfits : len < 256 ^ 4 := by
    unfold maxFramePayload at hlen
    omega
  have hid' : ofLe (leBytes 4 f.streamId) = f.streamId := ofLe_leBytes hid
  have hlen' : ofLe (leBytes 4 len) = len := ofLe_leBytes hfits
  have htake : (f.header len).take 4 = magic := rfl
  have hversion : (f.header len).getD 4 0 = UInt8.ofNat version := rfl
  have htype : (f.header len).getD 5 0 = f.messageType.asU8 := rfl
  have hflags : ofLe (((f.header len).drop 6).take 2) = 0 := rfl
  have hidBytes : ((f.header len).drop 8).take 4 = leBytes 4 f.streamId := rfl
  have hlenBytes : ((f.header len).drop 12).take 4 = leBytes 4 len := rfl
  unfold Header.decode
  rw [if_neg (by rw [header_length]; omega), if_neg (not_not.mpr htake),
    if_neg (not_not.mpr hversion), htype, Except.bind_of_ok (MessageType.tryFrom_asU8 _)]
  dsimp only
  rw [if_neg (not_not.mpr hflags), hidBytes, hid', hlenBytes, hlen', Except.bind_of_ok hv]
  exact if_neg (Nat.not_lt.mpr hlen)

theorem addressBytes_length_le (addresses : List SocketAddr) :
    (addresses.flatMap encodeAddress).length ≤ 23 * addresses.length := by
  induction addresses with
  | nil => exact Nat.le_refl 0
  | cons a later ih =>
    have hone := encodeAddress_length_le a
    rw [flatMap_cons, length_append, length_cons]
    omega

theorem encodePayload_length_le (hv : f.BodyValid) : f.encodePayload.length ≤ maxFramePayload := by
  cases f with
  | hello | windowUpdate | ping | pong =>
    simp [encodePayload, maxFramePayload]
  | resolve =>
    have hlen := hostname_length_le hv
    simp only [encodePayload, length_append, leBytes_length, asBytes_length,
      maxFramePayload]
    unfold maxHostnameLen at hlen
    omega
  | resolveOk id addresses =>
    have hcount := (addresses_length_le hv).1
    have hbytes := addressBytes_length_le addresses
    simp only [encodePayload, length_append, leBytes_length, maxFramePayload]
    unfold maxResolveAddresses at hcount
    omega
  | openTo id address =>
    exact (encodeAddress_length_le address).trans (by decide)
  | openOk id bound =>
    exact (encodeAddress_length_le bound).trans (by decide)
  | openError id code diagnostic =>
    have hlen : utf8Len diagnostic ≤ 256 := hv
    simp only [encodePayload, length_append, length_singleton, leBytes_length,
      asBytes_length, maxFramePayload]
    omega
  | data =>
    exact hv.2.trans (by decide)
  | shutdownWrite id => exact Nat.zero_le _
  | close => exact Nat.le_of_ble_eq_true rfl

theorem encode_of_validate (hv : f.validate = .ok ()) :
    f.encode = .ok (f.header f.encodePayload.length ++ f.encodePayload) := by
  have hlen := encodePayload_length_le (bodyValid_of_validate hv).2
  simp only [encode, encodeInto, hv, if_neg (Nat.not_lt.mpr hlen), nil_append]

theorem decodeExact_encode (ht : f.Typed) (hv : f.validate = .ok ()) :
    decodeExact (f.header f.encodePayload.length ++ f.encodePayload) = .ok f.canonical := by
  obtain ⟨hid, hbody⟩ := bodyValid_of_validate hv
  have hlen := header_length f f.encodePayload.length
  have hhead := decode_header ht.id hid (encodePayload_length_le hbody)
  have htotal : (f.header f.encodePayload.length ++ f.encodePayload).length =
      headerLen + f.encodePayload.length := by
    rw [length_append, hlen]
  unfold decodeExact
  rw [if_neg (by omega), take_left' hlen, Except.bind_of_ok hhead]
  dsimp only
  rw [if_neg (by omega), if_neg (by omega), drop_left' hlen]
  exact decodePayload_encodePayload ht.body hv _

/-! ### What is accepted -/

/- An error about a frame, not about the decoder's buffer. -/
abbrev Fault (e : ProtocolError) : Prop := e ≠ .decoderBufferLimit

theorem validateStreamId_fault (ty : MessageType) (id : ℕ) :
    (validateStreamId ty id).Meets (fun _ => True) Fault := by
  unfold validateStreamId
  split
  · split
    · exact .error nofun
    · exact .ok trivial
  · split
    · exact .error nofun
    · exact .ok trivial

theorem validatePort_fault (ty : MessageType) (port : ℕ) :
    (validatePort ty port).Meets (fun _ => True) Fault := by
  unfold validatePort
  split
  · exact .error nofun
  · exact .ok trivial

theorem validateWireHostname_fault (hostname : Text) :
    (validateWireHostname hostname).Meets (fun _ => True) Fault := by
  unfold validateWireHostname
  split
  · exact .error nofun
  · split
    · exact .error nofun
    · split
      · exact .ok trivial
      · exact .error nofun

theorem validateAddresses_fault (unique addresses : List SocketAddr) :
    (validateAddresses unique addresses).Meets (fun _ => True) Fault := by
  induction addresses generalizing unique with
  | nil => exact .ok trivial
  | cons a rest ih =>
    refine (validatePort_fault _ _).bind ?_
    intro u _
    split
    · exact .error nofun
    · exact ih _

theorem Hello.validate_fault (h : Hello) : h.validate.Meets (fun _ => True) Fault := by
  unfold Hello.validate
  split
  · exact .error nofun
  · split
    · exact .error nofun
    · split
      · exact .error nofun
      · split
        · exact .error nofun
        · exact .ok trivial

theorem Frame.validate_fault (f : Frame) : f.validate.Meets (fun _ => True) Fault := by
  refine (validateStreamId_fault _ _).bind ?_
  intro u _
  cases f with
  | hello h => exact h.validate_fault
  | resolve id port hostname =>
    exact (validatePort_fault _ _).bind fun _ _ => validateWireHostname_fault hostname
  | resolveOk =>
    dsimp only
    unfold validateAddressList
    split
    · exact .error nofun
    · exact validateAddresses_fault _ _
  | openTo | openOk => exact validatePort_fault _ _
  | openError | data =>
    dsimp only
    split
    · exact .error nofun
    · split
      · exact .error nofun
      · exact .ok trivial
  | windowUpdate =>
    dsimp only
    split
    · exact .error nofun
    · exact .ok trivial
  | _ => exact .ok trivial

theorem MessageType.tryFrom_fault (b : UInt8) :
    (MessageType.tryFrom b).Meets (fun _ => True) Fault := by
  unfold MessageType.tryFrom
  split <;> first | exact .ok trivial | exact .error nofun

theorem Role.tryFrom_fault (b : UInt8) : (Role.tryFrom b).Meets (fun _ => True) Fault := by
  unfold Role.tryFrom
  split <;> first | exact .ok trivial | exact .error nofun

theorem OpenErrorCode.tryFrom_fault (b : UInt8) :
    (OpenErrorCode.tryFrom b).Meets (fun _ => True) Fault := by
  unfold OpenErrorCode.tryFrom
  split <;> first | exact .ok trivial | exact .error nofun

theorem CloseReason.tryFrom_fault (b : UInt8) :
    (CloseReason.tryFrom b).Meets (fun _ => True) Fault := by
  unfold CloseReason.tryFrom
  split <;> first | exact .ok trivial | exact .error nofun

theorem Header.decode_meets (bytes : Bytes) : (Header.decode bytes).Meets
    (fun h => h.streamId < 256 ^ 4 ∧ h.payloadLen ≤ maxFramePayload) Fault := by
  unfold Header.decode
  split
  · exact .error nofun
  · split
    · exact .error nofun
    · split
      · exact .error nofun
      · refine (MessageType.tryFrom_fault _).bind ?_
        intro ty _
        dsimp only
        split
        · exact .error nofun
        · refine (validateStreamId_fault _ _).bind ?_
          intro u _
          split
          · exact .error nofun
          · rename_i hlen
            have hid : ofLe ((bytes.drop 8).take 4) < 256 ^ 4 :=
              (ofLe_lt _).trans_le (Nat.pow_le_pow_right (by decide) (length_take_le 4 _))
            exact .ok ⟨hid, Nat.le_of_not_lt hlen⟩

namespace PayloadCursor

variable (ty : MessageType) (field : String)

theorem bytes_meets (len : ℕ) :
    (bytes ty len field).Meets (fun taken => taken.length = len) Fault :=
  .take nofun

theorem advance_meets (len : ℕ) : (advance ty len field).Meets (fun _ => True) Fault :=
  (bytes_meets ty field len).bind fun _ _ => .pure trivial

theorem u8_meets : (u8 ty field).Meets (fun _ => True) Fault :=
  (bytes_meets ty field 1).bind fun _ _ => .pure trivial

theorem uint_meets (width : ℕ) : (uint ty width field).Meets (fun v => v < 256 ^ width) Fault := by
  refine (bytes_meets ty field width).bind ?_
  intro taken hlen
  have hlt := ofLe_lt taken
  rw [hlen] at hlt
  exact .pure hlt

theorem requireExactLen_meets (n : ℕ) : (requireExactLen ty n).Meets (fun _ => True) Fault :=
  .exactly nofun fun _ => nofun

theorem finish_meets : (finish ty).Meets (fun _ => True) Fault := by
  intro rest
  show (if rest.length = 0 then _ else _ : Except ProtocolError (Unit × Bytes)).Meets _ _
  split
  · exact .ok trivial
  · exact .error nofun

end PayloadCursor

def Travels (a : SocketAddr) : Prop := a.Typed ∧ canonicalizeAddress a = a

theorem addressNeeded_fault (ty : MessageType) (input : Bytes) :
    (addressNeeded ty input).Meets (fun _ => True) Fault := by
  unfold addressNeeded
  split
  · exact .error nofun
  · split
    · exact .error nofun
    · dsimp only
      split
      · split
        · exact .error nofun
        · exact .ok trivial
      · split
        · exact .error nofun
        · exact .ok trivial

theorem ofLe_take_lt (bytes : Bytes) (w : ℕ) : ofLe (bytes.take w) < 256 ^ w :=
  (ofLe_lt _).trans_le (Nat.pow_le_pow_right (by decide) (length_take_le w _))

theorem decodeAddress_meets (input : Bytes) :
    (decodeAddress input).Meets (fun found => Travels found.1) Fault := by
  refine (addressNeeded_fault _ input).bind ?_
  rintro ⟨family, needed⟩ -
  refine .ok ⟨?_, canonicalizeAddress_idem _⟩
  refine SocketAddr.Typed.canonicalize ?_
  split
  · exact ofLe_take_lt _ 2
  · exact ⟨ofLe_take_lt _ 2, by decide, ofLe_take_lt _ 4⟩

theorem readAddress_meets (ty : MessageType) (field : String) :
    (readAddress ty field).Meets Travels Fault := by
  refine get.bind ?_
  intro remaining _
  have hdecode : (decodeAddressWithType remaining ty).Meets (fun found => Travels found.1) Fault :=
    (addressNeeded_fault ty remaining).bind fun _ _ => decodeAddress_meets remaining
  refine (ofExcept hdecode).bind ?_
  rintro ⟨address, consumed⟩ haddress
  exact (advance_meets ty field consumed).bind fun _ _ => .pure haddress

theorem readAddresses_meets (ty : MessageType) (n : ℕ) (sofar : List SocketAddr)
    (h : ∀ a ∈ sofar, Travels a) :
    (readAddresses ty n sofar).Meets (fun found => ∀ a ∈ found, Travels a) Fault := by
  induction n generalizing sofar with
  | zero => exact .pure h
  | succ n ih =>
    refine (readAddress_meets ty "address").bind ?_
    intro address haddress
    split
    · exact .throw nofun
    · refine ih _ ?_
      intro a ha
      rcases mem_append.mp ha with ha | ha
      · exact h a ha
      · rw [mem_singleton.mp ha]
        exact haddress

/- The frames a cursor can return for a stream: typed, and canonical already. -/
structure Frame.Settled (id : ℕ) (f : Frame) : Prop where
  body : f.BodyTyped
  canonical : f.canonical = f
  id : f.streamId = id ∨ f.streamId = 0

section
variable (ty : MessageType) (id : ℕ)

theorem readHello_meets : (readHello ty).Meets Hello.Typed Fault := by
  refine (requireExactLen_meets ty _).bind fun _ _ => ?_
  refine (u8_meets ty _).bind fun role _ => ?_
  refine (ofExcept (Role.tryFrom_fault role)).bind fun role _ => ?_
  refine (u8_meets ty _).bind fun minVersion _ => ?_
  refine (u8_meets ty _).bind fun maxVersion _ => ?_
  refine (u8_meets ty _).bind fun reserved _ => ?_
  split
  · exact .throw nofun
  · refine (uint_meets ty _ 4).bind fun maxData hdata => ?_
    refine (uint_meets ty _ 4).bind fun receiveWindow hwindow => ?_
    refine (uint_meets ty _ 4).bind fun maxStreams hstreams => ?_
    refine (uint_meets ty _ 8).bind fun nonce hnonce => ?_
    refine (ofExcept (Hello.validate_fault _)).bind fun _ _ => ?_
    exact .pure ⟨minVersion.toNat_lt, maxVersion.toNat_lt, hdata, hwindow, hstreams, hnonce⟩

theorem readResolve_meets : (readResolve ty id).Meets (Frame.Settled id) Fault := by
  refine (uint_meets ty _ 2).bind fun port hport => ?_
  refine (uint_meets ty _ 2).bind fun nameLen _ => ?_
  split
  · exact .throw nofun
  · refine (bytes_meets ty _ nameLen).bind fun raw _ => ?_
    split
    · exact .throw nofun
    · refine (ofExcept (validateWireHostname_fault _)).bind fun _ _ => ?_
      exact .pure ⟨hport, rfl, .inl rfl⟩

theorem readResolveOk_meets : (readResolveOk ty id).Meets (Frame.Settled id) Fault := by
  refine (uint_meets ty _ 2).bind fun count _ => ?_
  split
  · exact .throw nofun
  · refine (readAddresses_meets ty count [] fun a ha => nomatch ha).bind fun addresses hall => ?_
    refine .pure ⟨fun a ha => (hall a ha).1, ?_, .inl rfl⟩
    have hmap : addresses.map canonicalizeAddress = addresses :=
      (map_congr_left fun a ha => (hall a ha).2).trans (map_id addresses)
    rw [canonical, hmap]

theorem readOpenError_meets : (readOpenError ty id).Meets (Frame.Settled id) Fault := by
  refine (u8_meets ty _).bind fun code _ => ?_
  refine (ofExcept (OpenErrorCode.tryFrom_fault code)).bind fun code _ => ?_
  refine (uint_meets ty _ 2).bind fun textLen _ => ?_
  split
  · exact .throw nofun
  · refine (bytes_meets ty _ textLen).bind fun raw _ => ?_
    split
    · exact .throw nofun
    · exact .pure ⟨trivial, rfl, .inl rfl⟩

theorem readData_meets : (readData ty id).Meets (Frame.Settled id) Fault := by
  refine get.bind fun payload _ => ?_
  split
  · exact .throw nofun
  · split
    · exact .throw nofun
    · exact (advance_meets ty _ _).bind fun _ _ => .pure ⟨trivial, rfl, .inl rfl⟩

theorem readClose_meets : (readClose ty id).Meets (Frame.Settled id) Fault := by
  refine (requireExactLen_meets ty 1).bind fun _ _ => ?_
  refine (u8_meets ty _).bind fun reason _ => ?_
  exact (ofExcept (CloseReason.tryFrom_fault reason)).bind fun _ _ =>
    .pure ⟨trivial, rfl, .inl rfl⟩

theorem readWindowUpdate_meets : (readWindowUpdate ty id).Meets (Frame.Settled id) Fault := by
  refine (requireExactLen_meets ty 4).bind fun _ _ => ?_
  refine (uint_meets ty _ 4).bind fun credit hcredit => ?_
  split
  · exact .throw nofun
  · exact .pure ⟨hcredit, rfl, .inl rfl⟩

theorem readNonce_meets : (readNonce ty).Meets (fun nonce => nonce < 256 ^ 8) Fault :=
  (requireExactLen_meets ty 8).bind fun _ _ => uint_meets ty _ 8

theorem readPayload_meets : (readPayload ty id).Meets (Frame.Settled id) Fault := by
  cases ty with
  | hello => exact (readHello_meets .hello).map fun h hh => ⟨hh, rfl, .inr rfl⟩
  | resolve => exact readResolve_meets .resolve id
  | resolveOk => exact readResolveOk_meets .resolveOk id
  | openTo =>
    refine (readAddress_meets .openTo "address").map fun a ha => ⟨ha.1, ?_, .inl rfl⟩
    rw [canonical, ha.2]
  | openOk =>
    refine (readAddress_meets .openOk "bound address").map fun a ha => ⟨ha.1, ?_, .inl rfl⟩
    rw [canonical, ha.2]
  | openError => exact readOpenError_meets .openError id
  | data => exact readData_meets .data id
  | shutdownWrite =>
    exact (requireExactLen_meets .shutdownWrite 0).map fun _ _ => ⟨trivial, rfl, .inl rfl⟩
  | close => exact readClose_meets .close id
  | windowUpdate => exact readWindowUpdate_meets .windowUpdate id
  | ping => exact (readNonce_meets .ping).map fun n hn => ⟨hn, rfl, .inr rfl⟩
  | pong => exact (readNonce_meets .pong).map fun n hn => ⟨hn, rfl, .inr rfl⟩

end

theorem decodePayload_meets (header : Header) (payload : Bytes) :
    (decodePayload header payload).Meets
      (fun f => f.Settled header.streamId ∧ f.validate = .ok ()) Fault := by
  have hwhole : (readWhole header.messageType header.streamId).Meets
      (fun f => f.Settled header.streamId ∧ f.validate = .ok ()) Fault := by
    refine (readPayload_meets _ _).bind fun frame hframe => ?_
    refine (finish_meets _).bind fun _ _ => ?_
    refine (ofExcept (P := fun _ => frame.validate = .ok ()) ?_).bind fun _ hv => ?_
    · exact ⟨fun u hu => hu, frame.validate_fault.2⟩
    · exact .pure ⟨hframe, hv⟩
  exact (hwhole payload).bind fun out hout => .ok hout

theorem decodeExact_meets (encoded : Bytes) :
    (decodeExact encoded).Meets (fun f => f.Typed ∧ f.canonical = f ∧ f.validate = .ok ()) Fault := by
  unfold decodeExact
  split
  · exact .error nofun
  · refine (Header.decode_meets _).bind fun header hheader => ?_
    dsimp only
    split
    · exact .error nofun
    · split
      · exact .error nofun
      · refine (decodePayload_meets header _).weaken ?_
        rintro f ⟨hsettled, hv⟩
        refine ⟨⟨?_, hsettled.body⟩, hsettled.canonical, hv⟩
        rcases hsettled.id with hid | hid
        · rw [hid]
          exact hheader.1
        · rw [hid]
          decide

/-- A valid frame comes back with its addresses canonical; what is accepted is valid and comes
back unchanged from its own encoding; an invalid frame does not touch the output. -/
theorem codec_round_trip :
    (∀ f : WireFrame, f.frame.validate = .ok () →
      ∃ bytes, f.frame.encode = .ok bytes ∧ decodeExact bytes = .ok f.frame.canonical) ∧
    (∀ bytes f, decodeExact bytes = .ok f →
      f.validate = .ok () ∧ ∃ bytes', f.encode = .ok bytes' ∧ decodeExact bytes' = .ok f) ∧
    ∀ (f : Frame) (output : Bytes), f.validate ≠ .ok () → (f.encodeInto output).2 = output := by
  refine ⟨?_, ?_, ?_⟩
  · intro f hv
    exact ⟨_, encode_of_validate hv, decodeExact_encode f.typed hv⟩
  · intro bytes f hf
    obtain ⟨htyped, hcanonical, hv⟩ := (decodeExact_meets bytes).1 f hf
    have hback := decodeExact_encode htyped hv
    rw [hcanonical] at hback
    exact ⟨hv, _, encode_of_validate hv, hback⟩
  · intro f output hv
    unfold encodeInto
    split
    · rfl
    · rename_i hok
      exact absurd hok hv

def mappedAnswer : WireFrame where
  frame := .resolveOk 1 [.v6 0xffff08080808 53 7 0]
  typed := by
    refine ⟨by decide, ?_⟩
    intro a ha
    rw [List.mem_singleton.mp ha]
    exact ⟨by decide, by decide, by decide⟩

def pongBytes : Bytes :=
  [65, 76, 82, 68, 1, 12, 0, 0, 0, 0, 0, 0, 8, 0, 0, 0, 7, 0, 0, 0, 0, 0, 0, 0]

theorem codec_round_trip_mapped :
    (∃ bytes, mappedAnswer.frame.encode = .ok bytes ∧
      decodeExact bytes = .ok (.resolveOk 1 [.v4 0x08080808 53])) ∧
    ((Frame.pong 7).validate = .ok () ∧
      ∃ bytes, (Frame.pong 7).encode = .ok bytes ∧ decodeExact bytes = .ok (.pong 7)) ∧
    ((Frame.windowUpdate 1 0).encodeInto [1, 2]).2 = [1, 2] :=
  ⟨codec_round_trip.1 mappedAnswer (by decide), codec_round_trip.2.1 pongBytes _ rfl,
    codec_round_trip.2.2 _ _ (by decide)⟩

end Rdp
end Alighieri
