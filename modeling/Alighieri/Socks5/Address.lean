import Alighieri.Socks5
import Alighieri.Lib.Reader

/-!
# The SOCKS5 address on the wire (socks5.rs:179-246, 420-533)

The stream reader `read_target_addr`, the parser of UDP headers, and the writer that puts a header
in front of a payload share one format. `Wire` says once which bytes spell which address.
-/

namespace Alighieri.Socks5
open Net Endian List Except

variable {n : ℕ} {r rest w : Bytes} {dest : TargetAddr}

/-! ### Writers -/

def encodeTargetAddr : TargetAddr → Bytes
  | .ip (.v4 ip port) => [atypV4] ++ beBytes 4 ip.toNat ++ beBytes 2 port
  | .ip (.v6 ip port _ _) => [atypV6] ++ beBytes 16 ip.toNat ++ beBytes 2 port
  | .domain domain port =>
    let bytes := asBytes domain
    let len := min bytes.length 255
    [atypDomain, UInt8.ofNat len] ++ bytes.take len ++ beBytes 2 port

def buildUdpHeader (src : TargetAddr) : Bytes := [0, 0] ++ [0] ++ encodeTargetAddr src

def udpIpHeaderMax : ℕ := 22

def copyAt (buf : Bytes) (pos : ℕ) (bytes : Bytes) : Bytes :=
  buf.take pos ++ bytes ++ buf.drop (pos + bytes.length)

/- Returns where the header starts and the array it was written into. -/
def writeUdpHeaderTail (src : SocketAddr) (room : Bytes) : ℕ × Bytes :=
  let src := SocketAddr.new (toCanonical src.ip) src.port
  let start := match src with
    | .v4 _ _ => udpIpHeaderMax - 10
    | .v6 _ _ _ _ => 0
  let header := copyAt (copyAt (copyAt (room.drop start) 0 [0]) 1 [0]) 2 [0]
  let header := match src with
    | .v4 ip port =>
      copyAt (copyAt (copyAt header 3 [atypV4]) 4 (beBytes 4 ip.toNat)) 8 (beBytes 2 port)
    | .v6 ip port _ _ =>
      copyAt (copyAt (copyAt header 3 [atypV6]) 4 (beBytes 16 ip.toNat)) 20 (beBytes 2 port)
  (start, room.take start ++ header)

/-! ### The format -/

/-- The bytes of an address: a type, the address and a port. -/
inductive Wire : Bytes → TargetAddr → Prop where
  | v4 (octets port : Bytes) (ho : octets.length = 4) (hp : port.length = 2) :
      Wire (atypV4 :: (octets ++ port)) (.ip (.new (ipv4Of octets) (ofBe port)))
  | v6 (octets port : Bytes) (ho : octets.length = 16) (hp : port.length = 2) :
      Wire (atypV6 :: (octets ++ port)) (.ip (.new (ipv6Of octets) (ofBe port)))
  | domain (len : UInt8) (raw port : Bytes) (name : Text) (hlen : len ≠ 0)
      (hraw : raw.length = len.toNat) (hp : port.length = 2) (hname : fromUtf8 raw = some name)
      (hvalid : validateHostname name = .ok ()) :
      Wire (atypDomain :: len :: (raw ++ port)) (.domain name (ofBe port))

theorem readExact_ok {taken : Bytes} (h : readExact n r = .ok (taken, rest)) :
    r = taken ++ rest ∧ taken.length = n := by
  unfold readExact at h
  split at h
  · cases h
    refine ⟨(take_append_drop n r).symm, ?_⟩
    rw [length_take]
    omega
  · cases h

theorem readExact_append (taken rest : Bytes) (h : taken.length = n) :
    readExact n (taken ++ rest) = .ok (taken, rest) := by
  unfold readExact
  rw [if_pos (by rw [length_append]; omega), take_left' h, drop_left' h]

theorem readU16_ok {v : ℕ} (h : readU16 r = .ok (v, rest)) :
    ∃ port : Bytes, r = port ++ rest ∧ port.length = 2 ∧ v = ofBe port := by
  obtain ⟨⟨port, rest'⟩, hread, hret⟩ := of_bind_ok h
  cases hret
  obtain ⟨hr, hlen⟩ := readExact_ok hread
  exact ⟨port, hr, hlen, rfl⟩

theorem readU16_append (port rest : Bytes) (h : port.length = 2) :
    readU16 (port ++ rest) = .ok (ofBe port, rest) :=
  bind_of_ok (readExact_append port rest h)

/-! ### The stream reader -/

theorem readDomain_ok (h : readDomain r = .ok (dest, rest)) :
    ∃ w, r = w ++ rest ∧ Wire (atypDomain :: w) dest := by
  obtain ⟨⟨len, r1⟩, hlen, h⟩ := of_bind_ok h
  dsimp only at h
  split at h
  · cases h
  rename_i hzero
  obtain ⟨⟨raw, r2⟩, hraw, h⟩ := of_bind_ok h
  dsimp only at h
  split at h
  · cases h
  rename_i name hname
  split at h
  · cases h
  rename_i hvalid
  obtain ⟨⟨v, r3⟩, hport, h⟩ := of_bind_ok h
  cases h
  obtain ⟨rfl, hrlen⟩ := readExact_ok hraw
  obtain ⟨port, rfl, hplen, rfl⟩ := readU16_ok hport
  cases r with
  | nil => cases hlen
  | cons b r =>
    cases hlen
    refine ⟨len :: (raw ++ port), by simp, ?_⟩
    exact .domain len raw port name hzero hrlen hplen hname hvalid

theorem readDomain_wire {len : UInt8} {raw port : Bytes} {name : Text} (hlen : len ≠ 0)
    (hraw : raw.length = len.toNat) (hp : port.length = 2) (hname : fromUtf8 raw = some name)
    (hvalid : validateHostname name = .ok ()) (rest : Bytes) :
    readDomain (len :: (raw ++ port) ++ rest) = .ok (.domain name (ofBe port), rest) := by
  refine (bind_of_ok (v := (len, raw ++ (port ++ rest))) ?_).trans ?_
  · simp [readU8]
  · dsimp only
    rw [if_neg hlen]
    refine (bind_of_ok (readExact_append raw (port ++ rest) hraw)).trans ?_
    simp only [hname, hvalid]
    exact bind_of_ok (readU16_append port rest hp)

theorem readIp_ok {ipOf : Bytes → IpAddr} (h : (do
      let (octets, r) ← readExact n r
      let (port, r) ← readU16 r
      Except.ok (TargetAddr.ip (.new (ipOf octets) port), r)) = Except.ok (dest, rest)) :
    ∃ octets port, r = octets ++ port ++ rest ∧ octets.length = n ∧ port.length = 2 ∧
      dest = .ip (.new (ipOf octets) (ofBe port)) := by
  obtain ⟨⟨octets, r1⟩, hoctets, h⟩ := of_bind_ok h
  obtain ⟨⟨v, r2⟩, hport, h⟩ := of_bind_ok h
  cases h
  obtain ⟨rfl, holen⟩ := readExact_ok hoctets
  obtain ⟨port, rfl, hplen, rfl⟩ := readU16_ok hport
  exact ⟨octets, port, (append_assoc ..).symm, holen, hplen, rfl⟩

theorem readIp_wire (ipOf : Bytes → IpAddr) {octets port : Bytes} (ho : octets.length = n)
    (hp : port.length = 2) (rest : Bytes) :
    (do
      let (octets, r) ← readExact n (octets ++ port ++ rest)
      let (port, r) ← readU16 r
      Except.ok (TargetAddr.ip (.new (ipOf octets) port), r)) =
      (Except.ok (TargetAddr.ip (.new (ipOf octets) (ofBe port)), rest) : Except Error _) := by
  rw [append_assoc]
  refine (bind_of_ok (readExact_append octets (port ++ rest) ho)).trans ?_
  exact bind_of_ok (readU16_append port rest hp)

theorem readTargetAddr_ok (h : readTargetAddr r = .ok (dest, rest)) :
    ∃ w, r = w ++ rest ∧ Wire w dest := by
  cases r with
  | nil => cases h
  | cons atyp r =>
    obtain ⟨⟨b, r1⟩, hb, h⟩ := of_bind_ok h
    cases hb
    dsimp only at h
    split at h
    · rename_i htyp
      obtain ⟨octets, port, rfl, ho, hp, rfl⟩ := readIp_ok h
      exact ⟨atyp :: (octets ++ port), rfl, htyp ▸ .v4 octets port ho hp⟩
    · split at h
      · rename_i htyp
        obtain ⟨octets, port, rfl, ho, hp, rfl⟩ := readIp_ok h
        exact ⟨atyp :: (octets ++ port), rfl, htyp ▸ .v6 octets port ho hp⟩
      · split at h
        · rename_i htyp
          obtain ⟨w, rfl, hw⟩ := readDomain_ok h
          exact ⟨atyp :: w, rfl, htyp ▸ hw⟩
        · cases h

theorem Wire.read (h : Wire w dest) (rest : Bytes) :
    readTargetAddr (w ++ rest) = .ok (dest, rest) := by
  cases h with
  | v4 octets port ho hp => exact readIp_wire ipv4Of ho hp rest
  | v6 octets port ho hp => exact readIp_wire ipv6Of ho hp rest
  | domain len raw port name hlen hraw hp hname hvalid =>
    exact readDomain_wire hlen hraw hp hname hvalid rest

theorem readTargetAddr_iff :
    readTargetAddr r = .ok (dest, rest) ↔ ∃ w, r = w ++ rest ∧ Wire w dest := by
  constructor
  · exact readTargetAddr_ok
  · rintro ⟨w, rfl, hw⟩
    exact hw.read rest

theorem wire_iff : Wire w dest ↔ readTargetAddr w = .ok (dest, []) := by
  rw [readTargetAddr_iff]
  constructor
  · intro hw
    exact ⟨w, (append_nil w).symm, hw⟩
  · rintro ⟨w', hw', hw⟩
    rwa [hw', append_nil]

/-! ### UDP headers -/

theorem split_fields (h : ¬ rest.length < n + 2) :
    ∃ field port payload : Bytes, rest = field ++ port ++ payload ∧ field.length = n ∧
      port.length = 2 ∧ rest.take n = field ∧ (rest.drop n).take 2 = port := by
  refine ⟨rest.take n, (rest.drop n).take 2, (rest.drop n).drop 2, ?_, ?_, ?_, rfl, rfl⟩
  · rw [append_assoc, take_append_drop, take_append_drop]
  · rw [length_take]
    omega
  · rw [length_take, length_drop]
    omega

theorem parseUdpDest_ok {atyp : UInt8} {offset : ℕ}
    (h : parseUdpDest atyp rest = .ok (dest, offset)) :
    ∃ w payload, atyp :: rest = w ++ payload ∧ Wire w dest ∧ offset = 3 + w.length := by
  unfold parseUdpDest at h
  split at h
  · rename_i htyp
    split at h
    · cases h
    rename_i hlen
    obtain ⟨octets, port, payload, hrest, ho, hp, htake, hport⟩ := split_fields hlen
    rw [htake, hport] at h
    cases h
    rw [htyp, hrest]
    refine ⟨atypV4 :: (octets ++ port), payload, rfl, .v4 octets port ho hp, ?_⟩
    simp only [length_cons, length_append, ho, hp]
  · split at h
    · rename_i htyp
      split at h
      · cases h
      rename_i hlen
      obtain ⟨octets, port, payload, hrest, ho, hp, htake, hport⟩ := split_fields hlen
      rw [htake, hport] at h
      cases h
      rw [htyp, hrest]
      refine ⟨atypV6 :: (octets ++ port), payload, rfl, .v6 octets port ho hp, ?_⟩
      simp only [length_cons, length_append, ho, hp]
    · split at h
      · rename_i htyp
        split at h
        · cases h
        rename_i len body
        split at h
        · cases h
        rename_i hzero
        split at h
        · cases h
        rename_i hlen
        obtain ⟨raw, port, payload, hbody, hraw, hp, htake, hport⟩ := split_fields hlen
        rw [htake, hport] at h
        split at h
        · cases h
        rename_i name hname
        split at h
        · cases h
        rename_i hvalid
        cases h
        rw [htyp, hbody]
        refine ⟨atypDomain :: len :: (raw ++ port), payload, rfl,
          .domain len raw port name hzero hraw hp hname hvalid, ?_⟩
        simp only [length_cons, length_append, hraw, hp]
        omega
      · cases h

theorem Wire.parse (h : Wire w dest) (payload : Bytes) :
    ∃ atyp rest, w ++ payload = atyp :: rest ∧
      parseUdpDest atyp rest = .ok (dest, 3 + w.length) := by
  cases h with
  | v4 octets port ho hp =>
    refine ⟨atypV4, octets ++ port ++ payload, rfl, ?_⟩
    have hlen : ¬ (octets ++ port ++ payload).length < 4 + 2 := by
      simp only [length_append]
      omega
    unfold parseUdpDest
    rw [if_pos rfl, if_neg hlen, append_assoc, take_left' ho,
      drop_left' ho, take_left' hp]
    simp only [length_cons, length_append, ho, hp]
  | v6 octets port ho hp =>
    refine ⟨atypV6, octets ++ port ++ payload, rfl, ?_⟩
    have hlen : ¬ (octets ++ port ++ payload).length < 16 + 2 := by
      simp only [length_append]
      omega
    unfold parseUdpDest
    rw [if_neg (by decide), if_pos rfl, if_neg hlen, append_assoc,
      take_left' ho, drop_left' ho, take_left' hp]
    simp only [length_cons, length_append, ho, hp]
  | domain len raw port name hlen hraw hp hname hvalid =>
    refine ⟨atypDomain, len :: (raw ++ port ++ payload), rfl, ?_⟩
    have hroom : ¬ (raw ++ port ++ payload).length < len.toNat + 2 := by
      simp only [length_append]
      omega
    unfold parseUdpDest
    rw [if_neg (by decide), if_neg (by decide), if_pos rfl]
    simp only [if_neg hlen, if_neg hroom]
    rw [append_assoc, take_left' hraw, drop_left' hraw, take_left' hp]
    simp only [hname, hvalid, length_cons, length_append, hraw, hp]
    congr 2
    omega

theorem parseUdpHeader_iff (frag : UInt8) (b : Bytes) (header : UdpHeader) :
    parseUdpHeader (0 :: 0 :: frag :: b) = .ok header ↔
      ∃ w payload, b = w ++ payload ∧ Wire w header.dest ∧ header.frag = frag ∧
        header.payloadOffset = 3 + w.length := by
  constructor
  · intro h
    cases b with
    | nil => cases h
    | cons =>
      rw [parseUdpHeader, if_neg (by decide)] at h
      obtain ⟨⟨dest, offset⟩, hdest, h⟩ := of_bind_ok h
      cases h
      obtain ⟨w, payload, hb, hw, hoffset⟩ := parseUdpDest_ok hdest
      exact ⟨w, payload, hb, hw, rfl, hoffset⟩
  · rintro ⟨w, payload, rfl, hw, hfrag, hoffset⟩
    obtain ⟨atyp, rest, hb, hdest⟩ := hw.parse payload
    rw [hb, parseUdpHeader, if_neg (by decide)]
    refine (bind_of_ok hdest).trans ?_
    rw [← hfrag, ← hoffset]

/-! ### Encodings -/

/- A target address the wire can carry: a 16-bit port, no flow information or scope, and a
host name in the bounds of its length byte. -/
def TargetAddr.Encodable : TargetAddr → Prop
  | .ip addr => ∃ ip port, addr = .new ip port ∧ port < 65536
  | .domain host port => validateHostname host = .ok () ∧ utf8Len host ≤ 255 ∧ port < 65536

theorem validateHostname_nil : validateHostname [] ≠ .ok () := by decide

theorem eq_nil_of_utf8Len {s : Text} (h : utf8Len s = 0) : s = [] := by
  cases s with
  | nil => rfl
  | cons c s =>
    have hpos : 0 < c.utf8Size := Char.utf8Size_pos c
    simp only [utf8Len, map_cons, sum_cons] at h
    omega

theorem wire_encodeTargetAddr {addr : TargetAddr} (h : addr.Encodable) :
    Wire (encodeTargetAddr addr) addr := by
  cases addr with
  | ip =>
    obtain ⟨ip, port, rfl, hport⟩ := h
    have hport' : ofBe (beBytes 2 port) = port := ofBe_beBytes hport
    cases ip with
    | v4 bits =>
      have hw := Wire.v4 (beBytes 4 bits.toNat) (beBytes 2 port) (beBytes_length ..)
        (beBytes_length ..)
      rwa [hport', ipv4Of, ofBe_beBytes bits.isLt, BitVec.ofNat_toNat, BitVec.setWidth_eq] at hw
    | v6 bits =>
      have hw := Wire.v6 (beBytes 16 bits.toNat) (beBytes 2 port) (beBytes_length ..)
        (beBytes_length ..)
      rwa [hport', ipv6Of, ofBe_beBytes bits.isLt, BitVec.ofNat_toNat, BitVec.setWidth_eq] at hw
  | domain host port =>
    obtain ⟨hvalid, hlen, hport⟩ := h
    have hport' : ofBe (beBytes 2 port) = port := ofBe_beBytes hport
    have hbytes : (asBytes host).length ≤ 255 := by rwa [asBytes_length]
    have hcount : (UInt8.ofNat (asBytes host).length).toNat = (asBytes host).length := by
      rw [UInt8.toNat_ofNat']
      omega
    have hzero : UInt8.ofNat (asBytes host).length ≠ 0 := by
      intro heq
      rw [heq, asBytes_length] at hcount
      exact validateHostname_nil (eq_nil_of_utf8Len hcount.symm ▸ hvalid)
    have hw := Wire.domain (UInt8.ofNat (asBytes host).length) (asBytes host) (beBytes 2 port) host
      hzero hcount.symm (beBytes_length ..) (fromUtf8_asBytes host) hvalid
    rw [hport'] at hw
    simp only [encodeTargetAddr, min_eq_left hbytes, take_length]
    exact hw

/-! ### The header in place -/

theorem copyAt_append {done bytes : Bytes} {pos : ℕ} (h : done.length = pos) :
    copyAt (done ++ rest) pos bytes = done ++ bytes ++ rest.drop bytes.length := by
  rw [copyAt, take_left' h, ← h, drop_append, drop_eq_nil_of_le (by omega),
    nil_append, Nat.add_sub_cancel_left]

theorem copyAt_header (header address port : Bytes) (atyp : UInt8) (hn : address.length + 4 = n)
    (hlen : header.length = n + port.length) :
    copyAt (copyAt (copyAt (copyAt (copyAt (copyAt header 0 [0]) 1 [0]) 2 [0]) 3 [atyp]) 4 address)
      n port = [0, 0, 0, atyp] ++ address ++ port := by
  have hfirst : copyAt header 0 [0] = [0] ++ header.drop 1 := rfl
  have hdone : ([0] ++ [0] ++ [0] ++ [atyp] ++ address).length = n := by
    simp only [length_append, length_singleton]
    omega
  rw [hfirst, copyAt_append (by rfl), copyAt_append (by rfl), copyAt_append (by rfl),
    copyAt_append (by rfl), copyAt_append hdone]
  simp only [drop_drop, length_singleton, cons_append, nil_append]
  rw [drop_eq_nil_of_le (by omega), append_nil]

theorem writeUdpHeaderTail_spec (src : SocketAddr) {room : Bytes}
    (hroom : room.length = udpIpHeaderMax) :
    writeUdpHeaderTail src room =
      (udpIpHeaderMax - (udpHeaderTail src).length,
        room.take (udpIpHeaderMax - (udpHeaderTail src).length) ++ udpHeaderTail src) := by
  unfold writeUdpHeaderTail udpHeaderTail
  cases toCanonical src.ip with
  | v4 bits =>
    have hfill := copyAt_header (room.drop (udpIpHeaderMax - 10)) (beBytes 4 bits.toNat)
      (beBytes 2 src.port) atypV4 (n := 8)
      (by rw [beBytes_length]) (by rw [length_drop, hroom, beBytes_length]; rfl)
    simp only [SocketAddr.new, hfill, length_append, beBytes_length]
    rfl
  | v6 bits =>
    have hfill := copyAt_header (room.drop 0) (beBytes 16 bits.toNat) (beBytes 2 src.port)
      atypV6 (n := 20)
      (by rw [beBytes_length]) (by rw [length_drop, hroom, beBytes_length]; rfl)
    simp only [SocketAddr.new, hfill, length_append, beBytes_length]
    rfl

theorem udpHeaderTail_eq (src : SocketAddr) :
    udpHeaderTail src = buildUdpHeader (.ip (.new (toCanonical src.ip) src.port)) := by
  unfold udpHeaderTail
  cases toCanonical src.ip <;> rfl

theorem udpHeaderTail_le (src : SocketAddr) : (udpHeaderTail src).length ≤ udpIpHeaderMax := by
  unfold udpHeaderTail
  cases toCanonical src.ip <;>
    simp only [length_append, beBytes_length, length_cons, length_nil] <;> decide

/-- The stream reader and the UDP parser accept the same spellings and agree on the destination
and the payload; both give back every encoded address; the header written in place is that of
`build_udp_header`. -/
theorem address_codecs_agree :
    (∀ (frag : UInt8) (b : Bytes) (header : UdpHeader),
      parseUdpHeader (0 :: 0 :: frag :: b) = .ok header ↔
        ∃ read payload, b = read ++ payload ∧ readTargetAddr read = .ok (header.dest, []) ∧
          header.frag = frag ∧ header.payloadOffset = 3 + read.length) ∧
    (∀ (b rest : Bytes) (dest : TargetAddr), readTargetAddr b = .ok (dest, rest) ↔
      ∃ read, b = read ++ rest ∧ readTargetAddr read = .ok (dest, [])) ∧
    (∀ (addr : TargetAddr) (payload : Bytes), addr.Encodable →
      readTargetAddr (encodeTargetAddr addr ++ payload) = .ok (addr, payload) ∧
        parseUdpHeader (buildUdpHeader addr ++ payload) =
          .ok ⟨0, addr, (buildUdpHeader addr).length⟩) ∧
    (∀ (src : SocketAddr) (room : Bytes), room.length = udpIpHeaderMax →
      (writeUdpHeaderTail src room).2 = room.take (writeUdpHeaderTail src room).1 ++
        buildUdpHeader (.ip (.new (toCanonical src.ip) src.port)) ∧
      (writeUdpHeaderTail src room).2.length = udpIpHeaderMax) := by
  refine ⟨?_, ?_, ?_, ?_⟩
  · intro frag b header
    simp only [parseUdpHeader_iff, wire_iff]
  · intro b rest dest
    rw [readTargetAddr_iff]
    simp only [wire_iff]
  · intro addr payload h
    have hw := wire_encodeTargetAddr h
    refine ⟨hw.read payload, ?_⟩
    refine (parseUdpHeader_iff 0 (encodeTargetAddr addr ++ payload) _).mpr ?_
    refine ⟨encodeTargetAddr addr, payload, rfl, hw, rfl, ?_⟩
    simp only [buildUdpHeader, length_append, length_cons, length_nil]
  · intro src room hroom
    have hle : (udpHeaderTail src).length ≤ udpIpHeaderMax := udpHeaderTail_le src
    rw [writeUdpHeaderTail_spec src hroom, ← udpHeaderTail_eq]
    refine ⟨rfl, ?_⟩
    simp only [length_append, length_take, hroom]
    omega

theorem address_codecs_agree_name :
    readTargetAddr (encodeTargetAddr (.domain ['a', '.', 'b'] 80) ++ [7]) =
        .ok (.domain ['a', '.', 'b'] 80, [7]) ∧
      (writeUdpHeaderTail (.v6 0xffff7f000001 53 0 0) (replicate 22 9)).2.length = 22 :=
  ⟨(address_codecs_agree.2.2.1 (.domain ['a', '.', 'b'] 80) [7]
      ⟨by decide, by decide, by decide⟩).1,
    (address_codecs_agree.2.2.2 (.v6 0xffff7f000001 53 0 0) (replicate 22 9) (by decide)).2⟩

end Alighieri.Socks5
