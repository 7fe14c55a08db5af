import Alighieri.Net.IpSpelling
import Alighieri.Net.Number
import Alighieri.Socks5.Address
import Mathlib.Data.Nat.Digits.Defs

/-!
# The PROXY protocol header (proxy_protocol.rs)

`readHeader` takes the bytes of a connection and returns the client address, if the header has
one, with the bytes that follow it. A header is a line of text (version 1) or a binary block
(version 2).
-/

namespace Alighieri.ProxyProtocol
open Net Socks5 Endian List Except

/-! ### The reader -/

def v2Signature : Bytes :=
  [0x0D, 0x0A, 0x0D, 0x0A, 0x00, 0x0D, 0x0A, 0x51, 0x55, 0x49, 0x54, 0x0A]

def v1MaxLen : ℕ := 107

def crlf : Bytes := [13, 10]

def invalid (message : String) : Error := .io .invalidData message

def literal (s : String) : Bytes := asBytes s.toList

def parseIp (wantV6 : Bool) (s : Text) : Except Error IpAddr :=
  match parseIpAddr s with
  | none => .error (invalid "PROXY v1 invalid IP")
  | some ip =>
    if ip.isV6 ≠ wantV6 then .error (invalid "PROXY v1 address family does not match protocol")
    else .ok ip

def parsePort (message : String) (s : Text) : Except Error ℕ :=
  match parseU16 s with
  | none => .error (invalid message)
  | some port => .ok port

/- The parts of the line, in the order in which `parse_v1_line` takes them. -/
def parseV1Parts (parts : List Text) : Except Error (Option SocketAddr) :=
  match parts with
  | [] => .error (invalid "PROXY v1 header malformed")
  | magic :: parts =>
    if magic ≠ "PROXY".toList then .error (invalid "PROXY v1 header malformed")
    else
      match parts with
      | [] => .error (invalid "PROXY v1 unknown protocol")
      | protocol :: fields =>
        if protocol ≠ "TCP4".toList ∧ protocol ≠ "TCP6".toList then
          .error (invalid "PROXY v1 unknown protocol")
        else
          match fields with
          | srcIp :: dstIp :: srcPort :: dstPort :: extra =>
            if extra ≠ [] then .error (invalid "PROXY v1 header has extra fields")
            else do
              let wantV6 := protocol == "TCP6".toList
              let src ← parseIp wantV6 srcIp
              let _ ← parseIp wantV6 dstIp
              let port ← parsePort "PROXY v1 invalid source port" srcPort
              let _ ← parsePort "PROXY v1 invalid dest port" dstPort
              .ok (some (.new src port))
          | _ => .error (invalid "PROXY v1 header truncated")

def parseV1Line (line : Bytes) : Except Error (Option SocketAddr) :=
  if line = literal "PROXY UNKNOWN" ∨ (literal "PROXY UNKNOWN ").isPrefixOf line then .ok none
  else
    match fromUtf8 line with
    | none => .error (invalid "PROXY v1 header is not UTF-8")
    | some line => parseV1Parts (line.splitOn ' ')

/- The loop of `read_v1`: the line read so far grows by one byte at a time. -/
def readV1Line (line : Bytes) : Bytes → Except Error (Bytes × Bytes)
  | [] =>
    if crlf.isSuffixOf line then .ok (line, [])
    else if v1MaxLen ≤ line.length then .error (invalid "PROXY v1 header too long")
    else .error eof
  | b :: r =>
    if crlf.isSuffixOf line then .ok (line, b :: r)
    else if v1MaxLen ≤ line.length then .error (invalid "PROXY v1 header too long")
    else readV1Line (line ++ [b]) r

def readV1 (start r : Bytes) : Except Error (Option SocketAddr × Bytes) := do
  let (line, r) ← readV1Line start r
  let addr ← parseV1Line (line.take (line.length - 2))
  .ok (addr, r)

/- What the version 2 block says once it has been read. -/
def parseV2Block (verCmd famProto : UInt8) (block : Bytes) : Except Error (Option SocketAddr) :=
  if verCmd &&& 0x0F = 0 then .ok none
  else if verCmd &&& 0x0F ≠ 1 then .error (invalid "PROXY v2 unsupported command")
  else
    let transport := famProto &&& 0x0F
    let family := famProto >>> 4
    if (family = 1 ∨ family = 2) ∧ transport ≠ 1 then
      .error (invalid "PROXY v2 transport must be STREAM")
    else if family = 1 ∧ 12 ≤ block.length then
      .ok (some (.new (ipv4Of (block.take 4)) (ofBe ((block.drop 8).take 2))))
    else if family = 2 ∧ 36 ≤ block.length then
      .ok (some (.new (ipv6Of (block.take 16)) (ofBe ((block.drop 32).take 2))))
    else if family = 1 ∨ family = 2 then .error (invalid "PROXY v2 address block too short")
    else .ok none

def readV2 (r : Bytes) : Except Error (Option SocketAddr × Bytes) := do
  let (verCmd, r) ← readU8 r
  let (famProto, r) ← readU8 r
  let (len, r) ← readU16 r
  if verCmd >>> 4 ≠ 2 then .error (invalid "PROXY v2 bad version")
  else
    let (block, r) ← readExact len r
    let addr ← parseV2Block verCmd famProto block
    .ok (addr, r)

def readHeader (r : Bytes) : Except Error (Option SocketAddr × Bytes) := do
  let (first, r) ← readExact 12 r
  if first = v2Signature then readV2 r
  else if (literal "PROXY ").isPrefixOf first then readV1 first r
  else .error (invalid "not a PROXY protocol header")

/-! ### The line of version 1 -/

/-- Where a connection comes from and where it goes. -/
structure Ends where
  src : IpAddr
  dst : IpAddr
  srcPort : ℕ
  dstPort : ℕ

def Ends.source (e : Ends) : SocketAddr := .new e.src e.srcPort

/-- What a line says behind the magic word. -/
structure Fields where
  v6 : Bool
  srcIp : Text
  dstIp : Text
  srcPort : Text
  dstPort : Text

namespace Fields

def words (t : Fields) : List Text :=
  ["PROXY".toList, if t.v6 then "TCP6".toList else "TCP4".toList, t.srcIp, t.dstIp, t.srcPort,
    t.dstPort]

/- The words with single blanks between them. -/
def line (t : Fields) : Text := [' '].intercalate t.words

end Fields

def DigitPort (s : Text) (port : ℕ) : Prop := IsDecimal s ∧ decimalValue s = port ∧ port ≤ 65535

/-- A port in decimal, without heading zeroes. -/
def PortText (s : Text) (port : ℕ) : Prop := DigitPort s port ∧ (s.head? = some '0' → s = ['0'])

/-- Four decimal numbers without heading zeroes, or groups of hexadecimal digits only. -/
def AddressText (s : Text) (ip : IpAddr) : Prop := IpText s ip ∧ (ip.isV6 = true → '.' ∉ s)

/-- The line names two addresses of the family it gives, and two ports. -/
structure LineOf (address : Text → IpAddr → Prop) (port : Text → ℕ → Prop) (t : Fields)
    (e : Ends) : Prop where
  src : address t.srcIp e.src ∧ e.src.isV6 = t.v6
  dst : address t.dstIp e.dst ∧ e.dst.isV6 = t.v6
  srcPort : port t.srcPort e.srcPort
  dstPort : port t.dstPort e.dstPort

/-- A line of the specification. -/
def V1 (line : Text) (e : Ends) : Prop := ∃ t, line = t.line ∧ LineOf AddressText PortText t e

/-- Any text for an address of the family, any decimal digits for a port. -/
def DigitV1 (line : Text) (e : Ends) : Prop := ∃ t, line = t.line ∧ LineOf IpText DigitPort t e

/- What the reader takes for an address and a port. -/
abbrev Reads : Fields → Ends → Prop := LineOf IpText fun s port => parseU16 s = some port

variable {s : Text}

theorem parseIp_iff {v6 : Bool} {ip : IpAddr} :
    parseIp v6 s = .ok ip ↔ IpText s ip ∧ ip.isV6 = v6 := by
  rw [← parseIpAddr_iff, parseIp]
  constructor
  · intro h
    split at h
    · cases h
    rename_i hparse
    split at h
    · cases h
    rename_i hfamily
    cases h
    exact ⟨hparse, not_not.mp hfamily⟩
  · rintro ⟨hparse, hfamily⟩
    rw [hparse]
    simp only [hfamily, ne_eq, not_true_eq_false, if_false]

theorem parsePort_iff {message : String} {port : ℕ} :
    parsePort message s = .ok port ↔ parseU16 s = some port := by
  rw [parsePort]
  cases parseU16 s with
  | none => constructor <;> intro h <;> cases h
  | some p =>
    constructor
    · intro h
      cases h
      rfl
    · intro h
      cases h
      rfl

variable {addr : SocketAddr}

theorem parseV1Parts_iff {parts : List Text} :
    parseV1Parts parts = .ok (some addr) ↔ ∃ t e, parts = t.words ∧ Reads t e ∧ addr = e.source := by
  constructor
  · intro h
    rw [parseV1Parts.eq_def] at h
    split at h
    · cases h
    rename_i magic parts
    split at h
    · cases h
    rename_i hmagic
    split at h
    · cases h
    rename_i protocol fields
    split at h
    · cases h
    rename_i hprotocol
    split at h
    · rename_i srcIp dstIp srcText dstText extra
      split at h
      · cases h
      rename_i hextra
      obtain ⟨src, hsrc, h⟩ := of_bind_ok h
      obtain ⟨dst, hdst, h⟩ := of_bind_ok h
      obtain ⟨srcPort, hsrcPort, h⟩ := of_bind_ok h
      obtain ⟨dstPort, hdstPort, h⟩ := of_bind_ok h
      cases h
      refine ⟨⟨protocol == "TCP6".toList, srcIp, dstIp, srcText, dstText⟩,
        ⟨src, dst, srcPort, dstPort⟩, ?_, ⟨parseIp_iff.mp hsrc, parseIp_iff.mp hdst,
        parsePort_iff.mp hsrcPort, parsePort_iff.mp hdstPort⟩, rfl⟩
      have hword : protocol =
          if protocol == "TCP6".toList then "TCP6".toList else "TCP4".toList := by
        split
        · rename_i h6
          exact eq_of_beq h6
        · rename_i h6
          by_contra h4
          exact hprotocol ⟨h4, fun heq => h6 (beq_iff_eq.mpr heq)⟩
      rw [not_not.mp hmagic, not_not.mp hextra, Fields.words, ← hword]
    · cases h
  · rintro ⟨t, e, rfl, ⟨hsrc, hdst, hsrcPort, hdstPort⟩, rfl⟩
    have hprotocol : ∀ protocol : Text, protocol = (if t.v6 then "TCP6".toList else "TCP4".toList) →
        ¬ (protocol ≠ "TCP4".toList ∧ protocol ≠ "TCP6".toList) ∧
          (protocol == "TCP6".toList) = t.v6 := by
      rintro protocol rfl
      cases t.v6 <;> decide
    obtain ⟨hknown, hwant⟩ := hprotocol _ rfl
    rw [Fields.words, parseV1Parts]
    simp only [ne_eq, not_true_eq_false, if_false, hknown]
    rw [hwant, bind_of_ok (parseIp_iff.mpr hsrc), bind_of_ok (parseIp_iff.mpr hdst),
      bind_of_ok (parsePort_iff.mpr hsrcPort), bind_of_ok (parsePort_iff.mpr hdstPort)]
    rfl

theorem parseU16_char {port : ℕ} (h : parseU16 s = some port) :
    ∀ c ∈ s, 33 ≤ c.toNat ∧ c.toNat < 128 := by
  obtain ⟨ds, hs, hds, -, -⟩ := parseUnsigned_some h
  have hdigit : ∀ c ∈ ds, 33 ≤ c.toNat ∧ c.toNat < 128 := by
    intro c hc
    obtain ⟨hlow, hhigh⟩ := Decimal.digit_toNat (hds.2 c hc)
    omega
  intro c hc
  rcases hs with rfl | rfl
  · exact hdigit c hc
  · rcases mem_cons.mp hc with rfl | hc
    · decide
    · exact hdigit c hc

theorem Fields.line_eq (t : Fields) : t.line =
    (if t.v6 then "PROXY TCP6 ".toList else "PROXY TCP4 ".toList) ++
      (t.srcIp ++ ' ' :: (t.dstIp ++ ' ' :: (t.srcPort ++ ' ' :: t.dstPort))) := by
  unfold line words
  repeat rw [String.toList_ofList]
  cases t.v6 <;> simp only [intercalate_cons_cons, intercalate_singleton,
    Bool.false_eq_true, if_true, if_false, cons_append, nil_append, append_assoc]

section Reads

variable {t : Fields} {e : Ends}

theorem Reads.word_char (h : Reads t e) :
    ∀ word ∈ t.words, ∀ c ∈ word, 33 ≤ c.toNat ∧ c.toNat < 128 := by
  have hip : ∀ {s : Text} {ip : IpAddr}, IpText s ip → ∀ c ∈ s, 33 ≤ c.toNat ∧ c.toNat < 128 :=
    fun hs c hc => (hs.ipChar c hc).ascii.symm
  intro word hword
  simp only [Fields.words, mem_cons, not_mem_nil, or_false] at hword
  rcases hword with rfl | rfl | rfl | rfl | rfl | rfl
  · exact forall_of_all (by decide)
  · cases t.v6 <;> exact forall_of_all (by decide)
  · exact hip h.src.1
  · exact hip h.dst.1
  · exact parseU16_char h.srcPort
  · exact parseU16_char h.dstPort

theorem Reads.split (h : Reads t e) : t.line.splitOn ' ' = t.words := by
  refine splitOn_intercalate ' ' ?_ (cons_ne_nil _ _)
  intro word hword hblank
  exact absurd (h.word_char word hword ' ' hblank).1 (by decide)

theorem Reads.char (h : Reads t e) : ∀ c ∈ t.line, 32 ≤ c.toNat ∧ c.toNat < 128 := by
  have hword : ∀ word ∈ t.words, ∀ c ∈ word, 32 ≤ c.toNat ∧ c.toNat < 128 := by
    intro word hmem c hc
    have hchar := h.word_char word hmem c hc
    omega
  have hstart : ∀ c ∈ (if t.v6 then "PROXY TCP6 ".toList else "PROXY TCP4 ".toList),
      32 ≤ c.toNat ∧ c.toNat < 128 := by
    cases t.v6 <;> exact forall_of_all (by decide)
  intro c hc
  rw [Fields.line_eq] at hc
  simp only [mem_append, mem_cons] at hc
  rcases hc with hc | hc | rfl | hc | rfl | hc | rfl | hc
  · exact hstart c hc
  · exact hword t.srcIp (by simp [Fields.words]) c hc
  · decide
  · exact hword t.dstIp (by simp [Fields.words]) c hc
  · decide
  · exact hword t.srcPort (by simp [Fields.words]) c hc
  · decide
  · exact hword t.dstPort (by simp [Fields.words]) c hc

end Reads

theorem Fields.line_length (t : Fields) : 12 ≤ t.line.length := by
  rw [line_eq]
  cases t.v6 <;> simp <;> omega

theorem Fields.line_not_unknown (t : Fields) : ¬ (asBytes t.line = literal "PROXY UNKNOWN" ∨
    (literal "PROXY UNKNOWN ").isPrefixOf (asBytes t.line)) := by
  have hstart : (asBytes t.line).take 7 = literal "PROXY T" := by
    rw [line_eq, asBytes_append]
    cases t.v6 <;> rfl
  rintro (heq | hpre)
  · rw [heq] at hstart
    revert hstart
    decide
  · obtain ⟨tail, htail⟩ := isPrefixOf_iff_prefix.mp hpre
    rw [← htail, take_append_of_le_length (by decide)] at hstart
    revert hstart
    decide

/-- A line gives an address exactly when its fields do. -/
theorem parseV1Line_iff {line : Bytes} :
    parseV1Line line = .ok (some addr) ↔
      ∃ t e, line = asBytes t.line ∧ Reads t e ∧ addr = e.source := by
  constructor
  · intro h
    rw [parseV1Line] at h
    split at h
    · cases h
    split at h
    · cases h
    rename_i htext
    obtain ⟨t, e, hwords, hreads, haddr⟩ := parseV1Parts_iff.mp h
    refine ⟨t, e, ?_, hreads, haddr⟩
    rw [← asBytes_of_fromUtf8 htext, Fields.line, ← hwords, intercalate_splitOn]
  · rintro ⟨t, e, rfl, hreads, rfl⟩
    rw [parseV1Line, if_neg t.line_not_unknown, fromUtf8_asBytes]
    simp only
    rw [hreads.split]
    exact parseV1Parts_iff.mpr ⟨t, e, rfl, hreads, rfl⟩

/-! ### Reading the line -/

theorem readV1Line_ok {line r line' rest : Bytes} (h : readV1Line line r = .ok (line', rest)) :
    ∃ more, r = more ++ rest ∧ line' = line ++ more ∧ crlf <:+ line' ∧
      (more = [] ∨ line'.length ≤ v1MaxLen) := by
  induction r generalizing line with
  | nil =>
    rw [readV1Line] at h
    split at h
    · rename_i hend
      cases h
      exact ⟨[], rfl, (append_nil _).symm, isSuffixOf_iff_suffix.mp hend, .inl rfl⟩
    · split at h <;> cases h
  | cons b r ih =>
    rw [readV1Line] at h
    split at h
    · rename_i hend
      cases h
      exact ⟨[], rfl, (append_nil _).symm, isSuffixOf_iff_suffix.mp hend, .inl rfl⟩
    · split at h
      · cases h
      obtain ⟨more, rfl, rfl, hend, hmore⟩ := ih h
      refine ⟨b :: more, rfl, by simp, hend, .inr ?_⟩
      rcases hmore with rfl | hle
      · rw [append_nil, length_append, length_singleton]
        omega
      · exact hle

theorem not_crlf {line : Bytes} (h : (10 : UInt8) ∉ line) : crlf.isSuffixOf line = false := by
  rw [Bool.eq_false_iff]
  intro hend
  obtain ⟨start, rfl⟩ := isSuffixOf_iff_suffix.mp hend
  exact h (by simp [crlf])

theorem readV1Line_append {line more rest : Bytes} (h : (10 : UInt8) ∉ line ++ more)
    (hlen : (line ++ more).length + 2 ≤ v1MaxLen) :
    readV1Line line (more ++ crlf ++ rest) = .ok (line ++ more ++ crlf, rest) := by
  induction more generalizing line with
  | nil =>
    rw [append_nil] at h hlen ⊢
    have hcr : (10 : UInt8) ∉ line ++ [13] := by simpa using h
    have hend : crlf.isSuffixOf (line ++ crlf) = true :=
      isSuffixOf_iff_suffix.mpr (suffix_append line crlf)
    have hassoc : line ++ [13] ++ [10] = line ++ crlf := by simp [crlf]
    have hlast : readV1Line (line ++ crlf) rest = .ok (line ++ crlf, rest) := by
      cases rest <;> rw [readV1Line, if_pos hend]
    show readV1Line line (13 :: 10 :: rest) = _
    rw [readV1Line, not_crlf h, readV1Line, not_crlf hcr, hassoc, hlast]
    simp only [Bool.false_eq_true, if_false, length_append, length_singleton]
    rw [if_neg (by omega), if_neg (by omega)]
  | cons b more ih =>
    have hline : (10 : UInt8) ∉ line := fun hmem => h (mem_append_left _ hmem)
    have hassoc : line ++ b :: more = line ++ [b] ++ more := by simp
    rw [hassoc] at h hlen ⊢
    have hroom : ¬ v1MaxLen ≤ line.length := by
      simp only [length_append, length_singleton] at hlen
      omega
    show readV1Line line (b :: (more ++ crlf ++ rest)) = _
    rw [readV1Line, not_crlf hline, if_neg hroom, ih h hlen]
    rfl

theorem LineOf.imp {address address' : Text → IpAddr → Prop} {port port' : Text → ℕ → Prop}
    {t : Fields} {e : Ends} (haddress : ∀ s ip, address s ip → address' s ip)
    (hport : ∀ s n, port s n → port' s n) (h : LineOf address port t e) :
    LineOf address' port' t e :=
  ⟨h.src.imp_left (haddress _ _), h.dst.imp_left (haddress _ _), hport _ _ h.srcPort,
    hport _ _ h.dstPort⟩

theorem V1.digits {line : Text} {e : Ends} (h : V1 line e) : DigitV1 line e := by
  obtain ⟨t, hline, ht⟩ := h
  exact ⟨t, hline, ht.imp (fun _ _ h => h.1) fun _ _ h => h.1⟩

theorem DigitPort.parse {n : ℕ} (h : DigitPort s n) : parseU16 s = some n := by
  obtain ⟨hdecimal, rfl, hle⟩ := h
  exact parseUnsigned_decimal hdecimal hle

theorem not_signature {first : Bytes} (h : literal "PROXY " <+: first) : first ≠ v2Signature := by
  rintro rfl
  revert h
  decide

theorem Reads.readHeader {t : Fields} {e : Ends} (h : Reads t e)
    (hlen : t.line.length + 2 ≤ v1MaxLen) (rest : Bytes) :
    readHeader (asBytes t.line ++ crlf ++ rest) = .ok (some e.source, rest) := by
  have hparse := parseV1Line_iff.mpr ⟨t, e, rfl, h, rfl⟩
  have hascii := asBytes_ascii fun c hc => (h.char c hc).2
  have hlines := t.line_length
  have hprox : literal "PROXY " <+: asBytes t.line := by
    rw [Fields.line_eq, asBytes_append]
    refine List.IsPrefix.trans ?_ (prefix_append _ _)
    cases t.v6 <;> decide
  generalize hL : asBytes t.line = L at hparse hascii hprox ⊢
  have hLlen : L.length = t.line.length := by
    rw [hascii, length_map]
  have hfeed : (10 : UInt8) ∉ L := by
    rw [hascii]
    intro hmem
    obtain ⟨c, hc, heq⟩ := mem_map.mp hmem
    obtain ⟨hlow, hhigh⟩ := h.char c hc
    have hnat := congrArg UInt8.toNat heq
    rw [UInt8.toNat_ofNat'] at hnat
    simp only [UInt8.reduceToNat] at hnat
    omega
  have hcut : L.take 12 ++ L.drop 12 = L := take_append_drop 12 L
  have hfirst : (L.take 12).length = 12 := by
    rw [length_take]
    omega
  have hstart : literal "PROXY " <+: L.take 12 := prefix_of_prefix_length_le hprox
    ( take_prefix 12 L) (by rw [hfirst]; decide)
  have hline := @readV1Line_append (L.take 12) (L.drop 12) rest (by rwa [hcut])
    (by rw [hcut]; omega)
  rw [hcut] at hline
  have hread := readExact_append (L.take 12) (L.drop 12 ++ crlf ++ rest) hfirst
  have hinput : L.take 12 ++ (L.drop 12 ++ crlf ++ rest) = L ++ crlf ++ rest := by
    rw [← append_assoc, ← append_assoc, hcut]
  rw [hinput] at hread
  refine (bind_of_ok hread).trans ?_
  simp only
  rw [if_neg (not_signature hstart), if_pos ( isPrefixOf_iff_prefix.mpr hstart), readV1]
  refine (bind_of_ok hline).trans ?_
  simp only [length_append, crlf, length_cons, length_nil, Nat.zero_add,
    Nat.reduceAdd, Nat.add_sub_cancel, take_left]
  exact bind_of_ok hparse

/-- The converse: what was accepted as a line is the fields of a line, its end and the rest. -/
theorem readHeader_v1_ok {input rest : Bytes} (h : readHeader input = .ok (some addr, rest))
    (hv1 : literal "PROXY " <+: input) :
    ∃ t e, input = asBytes t.line ++ crlf ++ rest ∧ t.line.length + 2 ≤ v1MaxLen ∧ Reads t e ∧
      addr = e.source := by
  obtain ⟨⟨first, r⟩, hfirst, hbody⟩ := of_bind_ok h
  obtain ⟨rfl, hlen⟩ := readExact_ok hfirst
  have hstart : literal "PROXY " <+: first := prefix_of_prefix_length_le hv1
    (prefix_append first r) (by rw [hlen]; decide)
  simp only [if_neg (not_signature hstart), if_pos ( isPrefixOf_iff_prefix.mpr hstart)] at hbody
  obtain ⟨⟨line, r'⟩, hline, hparsed⟩ := of_bind_ok hbody
  obtain ⟨addr', hparse, hret⟩ := of_bind_ok hparsed
  cases hret
  obtain ⟨more, rfl, rfl, ⟨L, hL⟩, hmax⟩ := readV1Line_ok hline
  have htake : (first ++ more).take ((first ++ more).length - 2) = L := by
    rw [← hL, length_append]
    exact take_left
  rw [htake] at hparse
  obtain ⟨t, e, rfl, hreads, rfl⟩ := parseV1Line_iff.mp hparse
  refine ⟨t, e, ?_, ?_, hreads, rfl⟩
  · rw [hL, append_assoc]
  · have hlength : (first ++ more).length ≤ v1MaxLen := by
      rcases hmax with rfl | hmax
      · rw [append_nil, hlen]
        decide
      · exact hmax
    rw [← hL, asBytes_ascii fun c hc => (hreads.char c hc).2, length_append,
      length_map] at hlength
    exact hlength

/- Neither port field begins with a plus sign. -/
def PlainPorts (line : Text) : Prop := ∀ field ∈ (line.splitOn ' ').drop 4, field.head? ≠ some '+'

/- No port field has a zero before another digit, and no IPv6 address a dot. -/
def Canonical (line : Text) : Prop :=
  (∀ field ∈ (line.splitOn ' ').drop 4, field.head? = some '0' → field = ['0']) ∧
    ((line.splitOn ' ')[1]? = some "TCP6".toList →
      ∀ field ∈ ((line.splitOn ' ').drop 2).take 2, '.' ∉ field)

theorem isDecimal_head (h : IsDecimal s) : s.head? ≠ some '+' := by
  cases s with
  | nil => exact absurd rfl h.1
  | cons c s =>
    intro heq
    cases heq
    exact absurd (h.2 '+' (mem_cons_self)) (by decide)

theorem digitPort_iff {port : ℕ} (h : parseU16 s = some port) :
    DigitPort s port ↔ s.head? ≠ some '+' := by
  constructor
  · exact fun hport => isDecimal_head hport.1
  · intro hplus
    obtain ⟨ds, hs, hds, hvalue, hle⟩ := parseUnsigned_some h
    rcases hs with rfl | rfl
    · exact ⟨hds, hvalue.symm, hle⟩
    · exact absurd rfl hplus

theorem Fields.words_inj {t t' : Fields} (h : t.words = t'.words) : t = t' := by
  obtain ⟨v6, a, b, c, d⟩ := t
  obtain ⟨v6', a', b', c', d'⟩ := t'
  cases v6 <;> cases v6' <;> simp_all [words]

section Grammar

variable {t : Fields} {e : Ends} {address : Text → IpAddr → Prop} {port : Text → ℕ → Prop}

/-- A line has one reading, so it is in a grammar when its fields are. -/
theorem Reads.lineOf (h : Reads t e) (haddress : ∀ s ip, address s ip → IpText s ip)
    (hport : ∀ s n, port s n → DigitPort s n) {t' : Fields} {e' : Ends}
    (hline : t.line = t'.line) (ht : LineOf address port t' e') : LineOf address port t e := by
  have hreads : Reads t' e' := ht.imp haddress fun s n hn => (hport s n hn).parse
  have hwords := h.split
  rw [hline, hreads.split] at hwords
  obtain rfl := Fields.words_inj hwords
  have huniq : ∀ {s : Text} {ip ip' : IpAddr}, IpText s ip → IpText s ip' → ip = ip' :=
    fun hs hs' => Option.some.inj
      ((parseIpAddr_iff.mpr hs).symm.trans (parseIpAddr_iff.mpr hs'))
  have heq : e' = e := by
    obtain ⟨src, dst, srcPort, dstPort⟩ := e
    obtain rfl := huniq hreads.src.1 h.src.1
    obtain rfl := huniq hreads.dst.1 h.dst.1
    obtain rfl := Option.some.inj (hreads.srcPort.symm.trans h.srcPort)
    obtain rfl := Option.some.inj (hreads.dstPort.symm.trans h.dstPort)
    rfl
  exact heq ▸ ht

theorem Reads.lineOf_iff (h : Reads t e) (haddress : ∀ s ip, address s ip → IpText s ip)
    (hport : ∀ s n, port s n → DigitPort s n) :
    (∃ e', (∃ t', t.line = t'.line ∧ LineOf address port t' e') ∧ e.source = e'.source) ↔
      LineOf address port t e := by
  constructor
  · rintro ⟨e', ⟨t', hline, ht⟩, -⟩
    exact h.lineOf haddress hport hline ht
  · intro ht
    exact ⟨e, ⟨t, rfl, ht⟩, rfl⟩

theorem Reads.plainPorts_iff (h : Reads t e) :
    PlainPorts t.line ↔ DigitPort t.srcPort e.srcPort ∧ DigitPort t.dstPort e.dstPort := by
  rw [PlainPorts, h.split, digitPort_iff h.srcPort, digitPort_iff h.dstPort]
  simp [Fields.words]

theorem Reads.canonical_iff (h : Reads t e) :
    Canonical t.line ↔ ((t.srcPort.head? = some '0' → t.srcPort = ['0']) ∧
        (t.dstPort.head? = some '0' → t.dstPort = ['0'])) ∧
      (t.v6 = true → '.' ∉ t.srcIp ∧ '.' ∉ t.dstIp) := by
  rw [Canonical, h.split]
  cases h6 : t.v6 <;> simp [Fields.words, h6]

theorem Reads.digitV1_iff (h : Reads t e) :
    (∃ e', DigitV1 t.line e' ∧ e.source = e'.source) ↔ PlainPorts t.line := by
  rw [h.plainPorts_iff]
  refine (h.lineOf_iff (fun _ _ h => h) (fun _ _ h => h)).trans ?_
  exact ⟨fun ht => ⟨ht.srcPort, ht.dstPort⟩, fun hports => ⟨h.src, h.dst, hports.1, hports.2⟩⟩

theorem Reads.v1_iff (h : Reads t e) :
    (∃ e', V1 t.line e' ∧ e.source = e'.source) ↔ PlainPorts t.line ∧ Canonical t.line := by
  rw [h.plainPorts_iff, h.canonical_iff]
  refine (h.lineOf_iff (fun _ _ h => h.1) (fun _ _ h => h.1)).trans ?_
  rw [← h.src.2]
  constructor
  · rintro ⟨⟨⟨-, hsrc⟩, hv6⟩, ⟨⟨-, hdst⟩, hv6'⟩, ⟨hsp, hsp0⟩, ⟨hdp, hdp0⟩⟩
    exact ⟨⟨hsp, hdp⟩, ⟨hsp0, hdp0⟩, fun h6 => ⟨hsrc h6, hdst (hv6'.trans (hv6.symm.trans h6))⟩⟩
  · rintro ⟨⟨hsp, hdp⟩, ⟨hsp0, hdp0⟩, hdot⟩
    exact ⟨⟨⟨h.src.1, fun h6 => (hdot h6).1⟩, h.src.2⟩,
      ⟨⟨h.dst.1, fun h6 => (hdot (h.src.2.trans (h.dst.2.symm.trans h6))).2⟩, h.dst.2⟩,
      ⟨hsp, hsp0⟩, ⟨hdp, hdp0⟩⟩

end Grammar

theorem plainText_address (ip : IpAddr) : AddressText (plainText ip) ip := by
  refine ⟨plainText_ipText ip, ?_⟩
  cases ip with
  | v4 => exact nofun
  | v6 bits => exact fun _ => plainText_v6_dot bits

theorem fmtNat_portText {port : ℕ} (h : port ≤ 65535) : PortText (fmtNat port) port := by
  refine ⟨⟨fmtNat_isDecimal _, decimalValue_fmtNat _, h⟩, fun hzero => ?_⟩
  rcases Nat.eq_zero_or_pos port with rfl | hpos
  · rfl
  · exact absurd hzero (Decimal.toDigits_head port hpos)

theorem exists_v1 {e : Ends} (hfamily : e.dst.isV6 = e.src.isV6) (hsp : e.srcPort ≤ 65535)
    (hdp : e.dstPort ≤ 65535) : ∃ line, V1 line e ∧ line.length + 2 ≤ v1MaxLen := by
  have hport : ∀ port ≤ 65535, (fmtNat port).length ≤ 5 := fun port hle =>
    Nat.toDigits_length 10 port 5 (by decide) (by omega)
  refine ⟨_, ⟨⟨e.src.isV6, plainText e.src, plainText e.dst, fmtNat e.srcPort, fmtNat e.dstPort⟩,
    rfl, ⟨plainText_address e.src, rfl⟩, ⟨plainText_address e.dst, hfamily⟩, fmtNat_portText hsp,
    fmtNat_portText hdp⟩, ?_⟩
  have hsrc := plainText_length e.src
  have hdst := plainText_length e.dst
  have hsplen := hport e.srcPort hsp
  have hdplen := hport e.dstPort hdp
  have hstart : (if e.src.isV6 then "PROXY TCP6 ".toList else "PROXY TCP4 ".toList).length = 11 := by
    cases e.src.isV6 <;> rfl
  rw [Fields.line_eq]
  simp only [length_append, length_cons, hstart, v1MaxLen]
  omega

/-! ### Version 2 -/

def addrBytes : IpAddr → Bytes
  | .v4 bits => beBytes 4 bits.toNat
  | .v6 bits => beBytes 16 bits.toNat

def v2Block (e : Ends) (tlvs : Bytes) : Bytes :=
  addrBytes e.src ++ (addrBytes e.dst ++ (beBytes 2 e.srcPort ++ (beBytes 2 e.dstPort ++ tlvs)))

def v2Header (e : Ends) (tlvs : Bytes) : Bytes :=
  v2Signature ++ ([0x21, if e.src.isV6 then 0x21 else 0x11] ++
    (beBytes 2 (v2Block e tlvs).length ++ v2Block e tlvs))

theorem ipv4Of_beBytes (bits : BitVec 32) : ipv4Of (beBytes 4 bits.toNat) = .v4 bits := by
  rw [ipv4Of, ofBe_beBytes bits.isLt, BitVec.ofNat_toNat, BitVec.setWidth_eq]

theorem ipv6Of_beBytes (bits : BitVec 128) : ipv6Of (beBytes 16 bits.toNat) = .v6 bits := by
  rw [ipv6Of, ofBe_beBytes bits.isLt, BitVec.ofNat_toNat, BitVec.setWidth_eq]

theorem v2Block_source {n : ℕ} {a b p q tlvs : Bytes} (ha : a.length = n) (hb : b.length = n)
    (hp : p.length = 2) (hq : q.length = 2) :
    (a ++ (b ++ (p ++ (q ++ tlvs)))).take n = a ∧
      ((a ++ (b ++ (p ++ (q ++ tlvs)))).drop (n + n)).take 2 = p ∧
      n + n + 4 ≤ (a ++ (b ++ (p ++ (q ++ tlvs)))).length := by
  refine ⟨take_left' ha, ?_, ?_⟩
  · rw [← drop_drop, drop_left' ha, drop_left' hb, take_left' hp]
  · simp only [length_append]
    omega

theorem parseV2Block_v2Block {e : Ends} (hfamily : e.dst.isV6 = e.src.isV6)
    (hsp : e.srcPort ≤ 65535) (tlvs : Bytes) :
    parseV2Block 0x21 (if e.src.isV6 then 0x21 else 0x11) (v2Block e tlvs) =
      .ok (some e.source) := by
  have hport : ofBe (beBytes 2 e.srcPort) = e.srcPort := ofBe_beBytes (by omega)
  obtain ⟨src, dst, srcPort, dstPort⟩ := e
  cases src with
  | v4 s =>
    cases dst with
    | v6 d => cases hfamily
    | v4 d =>
      obtain ⟨hip, hp, hle⟩ := @v2Block_source 4 (beBytes 4 s.toNat) (beBytes 4 d.toNat)
        (beBytes 2 srcPort) (beBytes 2 dstPort) tlvs (by simp) (by simp) (by simp) (by simp)
      simp only [parseV2Block, v2Block, addrBytes, IpAddr.isV6, Bool.false_eq_true, if_false]
      rw [if_neg (by decide), if_neg (by decide), if_neg (by decide), if_pos ⟨by decide, hle⟩, hip,
        hp, hport, ipv4Of_beBytes, Ends.source]
  | v6 s =>
    cases dst with
    | v4 d => cases hfamily
    | v6 d =>
      obtain ⟨hip, hp, hle⟩ := @v2Block_source 16 (beBytes 16 s.toNat) (beBytes 16 d.toNat)
        (beBytes 2 srcPort) (beBytes 2 dstPort) tlvs (by simp) (by simp) (by simp) (by simp)
      simp only [parseV2Block, v2Block, addrBytes, IpAddr.isV6, if_true]
      rw [if_neg (by decide), if_neg (by decide), if_neg (by decide),
        if_neg (fun h => absurd h.1 (by decide)), if_pos ⟨by decide, hle⟩, hip, hp, hport,
        ipv6Of_beBytes, Ends.source]

theorem readHeader_v2Header {e : Ends} (hfamily : e.dst.isV6 = e.src.isV6)
    (hsp : e.srcPort ≤ 65535) {tlvs : Bytes} (hlen : (v2Block e tlvs).length ≤ 65535)
    (rest : Bytes) : readHeader (v2Header e tlvs ++ rest) = .ok (some e.source, rest) := by
  have hparse := parseV2Block_v2Block hfamily hsp tlvs
  unfold v2Header
  generalize v2Block e tlvs = block at hlen hparse ⊢
  have hdeclared : ofBe (beBytes 2 block.length) = block.length := ofBe_beBytes (by omega)
  have hlength := readU16_append (beBytes 2 block.length) (block ++ rest) (by simp)
  have hblock := readExact_append block rest rfl
  rw [hdeclared] at hlength
  simp only [append_assoc]
  refine (bind_of_ok (readExact_append v2Signature _ rfl)).trans ?_
  simp only [if_true, cons_append, nil_append]
  refine (bind_of_ok (v := (0x21, _)) rfl).trans ?_
  refine (bind_of_ok (v := (if e.src.isV6 then 0x21 else 0x11, _)) rfl).trans ?_
  refine (bind_of_ok hlength).trans ?_
  simp only
  rw [if_neg (by decide)]
  refine (bind_of_ok hblock).trans ?_
  exact bind_of_ok hparse

theorem readHeader_v2_ok {input rest : Bytes} {addr : Option SocketAddr}
    (h : readHeader input = .ok (addr, rest)) (hv2 : v2Signature <+: input) :
    ∃ verCmd famProto len block,
      input = v2Signature ++ (verCmd :: famProto :: (len ++ (block ++ rest))) ∧
      len.length = 2 ∧ block.length = ofBe len := by
  obtain ⟨r, rfl⟩ := hv2
  have hread := readExact_append v2Signature r rfl
  obtain ⟨⟨first, r'⟩, hfirst, hbody⟩ := of_bind_ok h
  have heq : v2Signature = first ∧ r = r' := by
    have hinj := hread.symm.trans hfirst
    simpa using hinj
  obtain ⟨rfl, rfl⟩ := heq
  simp only [if_true] at hbody
  obtain ⟨⟨verCmd, r1⟩, hver, hbody⟩ := of_bind_ok hbody
  obtain ⟨⟨famProto, r2⟩, hfam, hbody⟩ := of_bind_ok hbody
  obtain ⟨⟨n, r3⟩, hlen, hbody⟩ := of_bind_ok hbody
  have hhead : ∀ {r r' : Bytes} {b : UInt8}, readU8 r = .ok (b, r') → r = b :: r' := by
    intro r r' b h
    cases r with
    | nil => cases h
    | cons c r =>
      cases h
      rfl
  obtain ⟨len, rfl, hlen2, rfl⟩ := readU16_ok hlen
  rw [hhead hver, hhead hfam]
  simp only at hbody
  split at hbody
  · cases hbody
  obtain ⟨⟨block, r4⟩, hblock, hbody⟩ := of_bind_ok hbody
  obtain ⟨addr', hparse, hret⟩ := of_bind_ok hbody
  cases hret
  obtain ⟨rfl, hblocklen⟩ := readExact_ok hblock
  exact ⟨verCmd, famProto, len, block, rfl, hlen2, hblocklen⟩

/-! ### Main result -/

/-- A header of one family gives its source and leaves the bytes behind it. An accepted header is
consumed exactly. An accepted line is one of the specification exactly when neither port begins
with a plus sign or a heading zero and no IPv6 address has a dotted tail; its ports are decimal
digits exactly when neither begins with a plus sign. -/
theorem proxy_header_exact (rest : Bytes) :
    (∀ line e, V1 line e ∨ DigitV1 line e → line.length + 2 ≤ v1MaxLen →
      readHeader (asBytes line ++ crlf ++ rest) = .ok (some e.source, rest)) ∧
    (∀ e : Ends, e.dst.isV6 = e.src.isV6 → e.srcPort ≤ 65535 → e.dstPort ≤ 65535 →
      (∃ line, V1 line e ∧ line.length + 2 ≤ v1MaxLen) ∧
      ∀ tlvs, (v2Block e tlvs).length ≤ 65535 →
        readHeader (v2Header e tlvs ++ rest) = .ok (some e.source, rest)) ∧
    (∀ input addr, readHeader input = .ok (addr, rest) → v2Signature <+: input →
      ∃ verCmd famProto len block,
        input = v2Signature ++ (verCmd :: famProto :: (len ++ (block ++ rest))) ∧
        len.length = 2 ∧ block.length = ofBe len) ∧
    ∀ input addr, readHeader input = .ok (some addr, rest) → literal "PROXY " <+: input →
      ∃ line, input = asBytes line ++ crlf ++ rest ∧ line.length + 2 ≤ v1MaxLen ∧
        ((∃ e, V1 line e ∧ addr = e.source) ↔ PlainPorts line ∧ Canonical line) ∧
        ((∃ e, DigitV1 line e ∧ addr = e.source) ↔ PlainPorts line) := by
  refine ⟨?_, ?_, ?_, ?_⟩
  · intro line e hline hlen
    have hdigits : DigitV1 line e := hline.elim V1.digits id
    obtain ⟨t, rfl, ht⟩ := hdigits
    have hreads : Reads t e := ht.imp (fun _ _ h => h) fun _ _ h => h.parse
    exact hreads.readHeader hlen rest
  · intro e hfamily hsp hdp
    exact ⟨exists_v1 hfamily hsp hdp, fun tlvs hlen => readHeader_v2Header hfamily hsp hlen rest⟩
  · intro input addr h hv2
    exact readHeader_v2_ok h hv2
  · intro input addr h hv1
    obtain ⟨t, e, hinput, hlen, hreads, rfl⟩ := readHeader_v1_ok h hv1
    exact ⟨_, hinput, hlen, hreads.v1_iff, hreads.digitV1_iff⟩

theorem proxy_header_exact_v1 :
    readHeader (literal "PROXY TCP4 1.2.3.4 5.6.7.8 1 80" ++ crlf ++ [5]) =
      .ok (some (.v4 0x01020304 1), [5]) ∧
    ∃ line, literal "PROXY TCP4 1.2.3.4 5.6.7.8 1 80" ++ crlf ++ [5] = asBytes line ++ crlf ++ [5] ∧
      ((∃ e, V1 line e ∧ SocketAddr.v4 0x01020304 1 = e.source) ↔
        PlainPorts line ∧ Canonical line) := by
  have hport : ∀ {s : Text} {port : ℕ}, s ≠ [] → (∀ c ∈ s, c.isDigit) → decimalValue s = port →
      port ≤ 65535 → (s.head? = some '0' → s = ['0']) → PortText s port :=
    fun hne hdigits hvalue hle hzero => ⟨⟨⟨hne, hdigits⟩, hvalue, hle⟩, hzero⟩
  have hV1 : V1 "PROXY TCP4 1.2.3.4 5.6.7.8 1 80".toList ⟨.v4 0x01020304, .v4 0x05060708, 1, 80⟩ :=
    ⟨⟨false, "1.2.3.4".toList, "5.6.7.8".toList, "1".toList, "80".toList⟩, by decide +kernel,
      ⟨⟨parseIpAddr_iff.mp (by decide +kernel), nofun⟩, rfl⟩,
      ⟨⟨parseIpAddr_iff.mp (by decide +kernel), nofun⟩, rfl⟩,
      hport (by decide) (forall_of_all (by decide)) (by decide) (by decide) (by decide),
      hport (by decide) (forall_of_all (by decide)) (by decide) (by decide) (by decide)⟩
  have hread := (proxy_header_exact [5]).1 _ _ (.inl hV1) (by decide)
  obtain ⟨line, hinput, -, hiff, -⟩ := (proxy_header_exact [5]).2.2.2 _ _ hread (by decide +kernel)
  exact ⟨hread, line, hinput, hiff⟩

/-- A port written `+1` is read as 1, one written `01` too, and an IPv6 address may end in an IPv4
one; no line of the specification says so, and the first is not even decimal digits. -/
theorem plus_port_accepted :
    (readHeader (literal "PROXY TCP4 1.2.3.4 5.6.7.8 +1 80" ++ crlf) =
        .ok (some (.v4 0x01020304 1), []) ∧
      ¬ ∃ e, DigitV1 "PROXY TCP4 1.2.3.4 5.6.7.8 +1 80".toList e) ∧
    (readHeader (literal "PROXY TCP4 1.2.3.4 5.6.7.8 01 80" ++ crlf) =
        .ok (some (.v4 0x01020304 1), []) ∧
      ¬ ∃ e, V1 "PROXY TCP4 1.2.3.4 5.6.7.8 01 80".toList e) ∧
    readHeader (literal "PROXY TCP6 ::1.2.3.4 ::1 1 80" ++ crlf) =
        .ok (some (.new (.v6 0x01020304) 1), []) ∧
      ¬ ∃ e, V1 "PROXY TCP6 ::1.2.3.4 ::1 1 80".toList e := by
  have hreads : ∀ {t : Fields} {e : Ends}, parseIpAddr t.srcIp = some e.src →
      parseIpAddr t.dstIp = some e.dst → e.src.isV6 = t.v6 → e.dst.isV6 = t.v6 →
      parseU16 t.srcPort = some e.srcPort → parseU16 t.dstPort = some e.dstPort → Reads t e :=
    fun hsrc hdst hs hd hsp hdp =>
      ⟨⟨parseIpAddr_iff.mp hsrc, hs⟩, ⟨parseIpAddr_iff.mp hdst, hd⟩, hsp, hdp⟩
  have hplus : Reads ⟨false, "1.2.3.4".toList, "5.6.7.8".toList, "+1".toList, "80".toList⟩
      ⟨.v4 0x01020304, .v4 0x05060708, 1, 80⟩ :=
    hreads (by decide +kernel) (by decide +kernel) rfl rfl (by decide) (by decide)
  have hzero : Reads ⟨false, "1.2.3.4".toList, "5.6.7.8".toList, "01".toList, "80".toList⟩
      ⟨.v4 0x01020304, .v4 0x05060708, 1, 80⟩ :=
    hreads (by decide +kernel) (by decide +kernel) rfl rfl (by decide) (by decide)
  have hdot : Reads ⟨true, "::1.2.3.4".toList, "::1".toList, "1".toList, "80".toList⟩
      ⟨.v6 0x01020304, .v6 1, 1, 80⟩ :=
    hreads (by decide +kernel) (by decide +kernel) rfl rfl (by decide) (by decide)
  refine ⟨⟨hplus.readHeader (by decide) [], ?_⟩, ⟨hzero.readHeader (by decide) [], ?_⟩,
    hdot.readHeader (by decide) [], ?_⟩
  · rintro ⟨e, t, hline, ht⟩
    have hport := (hplus.lineOf (fun _ _ h => h) (fun _ _ h => h) hline ht).srcPort
    exact isDecimal_head hport.1 rfl
  · rintro ⟨e, t, hline, ht⟩
    have hport := (hzero.lineOf (fun _ _ h => h.1) (fun _ _ h => h.1) hline ht).srcPort
    exact absurd (hport.2 rfl) (by decide)
  · rintro ⟨e, t, hline, ht⟩
    have haddr := (hdot.lineOf (fun _ _ h => h.1) (fun _ _ h => h.1) hline ht).src.1
    exact absurd (by decide) (haddr.2 rfl)

end Alighieri.ProxyProtocol
