import Alighieri.Net.Addr
import Alighieri.Net.Host

/-!
# Networks, port ranges and host patterns (net.rs:11-84, 126-144, 318-451)

The selectors of an access rule. A network stores the bits of its base address
as written, host bits included; `contains` shifts them out on both sides. Host
patterns compare bytes, as the source does, so text is taken through its UTF-8
encoding.
-/

namespace Alighieri.Net
open List

def asBytes (s : Text) : List UInt8 := s.flatMap String.utf8EncodeChar

theorem asBytes_length (s : Text) : (asBytes s).length = utf8Len s := by
  induction s with
  | nil => rfl
  | cons c s ih =>
    simp only [asBytes, utf8Len, flatMap_cons, map_cons, sum_cons,
      length_append, String.length_utf8EncodeChar] at ih ⊢
    rw [ih]

theorem asBytes_append (s t : Text) : asBytes (s ++ t) = asBytes s ++ asBytes t :=
  flatMap_append

theorem utf8EncodeChar_ascii {c : Char} (h : c.toNat < 128) :
    String.utf8EncodeChar c = [UInt8.ofNat c.toNat] := by
  have hle : c.val.toNat ≤ 127 := Nat.le_of_lt_succ h
  rw [String.utf8EncodeChar.eq_def]
  exact if_pos hle

theorem asBytes_ascii {s : Text} (h : ∀ c ∈ s, c.toNat < 128) :
    asBytes s = s.map fun c => UInt8.ofNat c.toNat := by
  induction s with
  | nil => rfl
  | cons c s ih =>
    have hc := utf8EncodeChar_ascii (h c (mem_cons_self))
    have hs := ih fun d hd => h d (mem_cons_of_mem _ hd)
    rw [map_cons, ← hs, asBytes, flatMap_cons, hc]
    rfl

def asciiLower (b : UInt8) : UInt8 := if 65 ≤ b ∧ b ≤ 90 then b + 32 else b

def eqIgnoreAsciiCase (a b : List UInt8) : Bool := a.map asciiLower == b.map asciiLower

def totalBits (isV6 : Bool) : ℕ := if isV6 then 128 else 32

/-- A CIDR network. `Cidr::new` refuses a prefix longer than the address. -/
structure Cidr where
  bits : ℕ
  prefixLen : ℕ
  isV6 : Bool
  fits : prefixLen ≤ totalBits isV6
  deriving DecidableEq, Repr

namespace IpAddr

def value : IpAddr → ℕ
  | v4 bits => bits.toNat
  | v6 bits => bits.toNat

def isV6 : IpAddr → Bool
  | v4 _ => false
  | v6 _ => true

end IpAddr

namespace Cidr

def new (addr : IpAddr) (len : ℕ) : Option Cidr :=
  if h : len ≤ totalBits addr.isV6 then some ⟨addr.value, len, addr.isV6, h⟩ else none

def contains (c : Cidr) (addr : IpAddr) : Bool :=
  if addr.isV6 ≠ c.isV6 then false
  else if c.prefixLen = 0 then true
  else addr.value >>> (totalBits c.isV6 - c.prefixLen) == c.bits >>> (totalBits c.isV6 - c.prefixLen)

def everything (isV6 : Bool) : Cidr := ⟨0, 0, isV6, Nat.zero_le _⟩

theorem contains_of_zero {c : Cidr} {addr : IpAddr} (hp : c.prefixLen = 0)
    (hf : addr.isV6 = c.isV6) : c.contains addr = true := by
  simp [contains, hp, hf]

end Cidr

structure PortRange where
  min : ℕ
  max : ℕ
  deriving DecidableEq, Repr

def PortRange.contains (r : PortRange) (port : ℕ) : Bool := decide (r.min ≤ port ∧ port ≤ r.max)

/- Patterns are stored lower-cased and without the leading dot of a suffix. -/
inductive HostPattern where
  | exact (host : Text)
  | suffix (domain : Text)
  deriving DecidableEq, Repr

/- The tail comparison of a suffix pattern: the byte before the last
`domain.len()` bytes is a dot and those bytes are the domain. -/
def endsInDomain (host domain : List UInt8) : Bool :=
  decide (domain.length < host.length) &&
    host[host.length - domain.length - 1]? == some 46 &&
    eqIgnoreAsciiCase (host.drop (host.length - domain.length)) domain

def HostPattern.matches (p : HostPattern) (host : Text) : Bool :=
  match p with
  | .exact h => eqIgnoreAsciiCase (asBytes (stripDot host)) (asBytes h)
  | .suffix domain =>
    eqIgnoreAsciiCase (asBytes (stripDot host)) (asBytes domain) ||
      endsInDomain (asBytes (stripDot host)) (asBytes domain)

structure AddrSpec where
  cidrs : List Cidr
  hosts : List HostPattern
  ports : Option PortRange
  deriving DecidableEq, Repr

def AddrSpec.portMatches (s : AddrSpec) (port : ℕ) : Bool :=
  match s.ports with
  | some range => range.contains port
  | none => true

def AddrSpec.matches (s : AddrSpec) (ip : IpAddr) (port : ℕ) : Bool :=
  s.cidrs.any (·.contains ip) && s.portMatches port

namespace AddrSpec

def any : AddrSpec := ⟨[Cidr.everything false, Cidr.everything true], [], none⟩

def new (cidr : Cidr) (ports : Option PortRange) : AddrSpec := ⟨[cidr], [], ports⟩

def matchesDest (s : AddrSpec) (host : Option Text) (ip : IpAddr) (port : ℕ) : Bool :=
  s.portMatches port &&
    (s.cidrs.any (·.contains ip) || host.any fun h => s.hosts.any (·.matches h))

def matchesAll (s : AddrSpec) : Bool :=
  s.ports.isNone && s.cidrs.any (fun c => c.prefixLen == 0 && !c.isV6) &&
    s.cidrs.any (fun c => c.prefixLen == 0 && c.isV6)

@[simp] theorem any_matches (ip : IpAddr) (port : ℕ) : AddrSpec.any.matches ip port = true := by
  cases ip <;> simp [any, AddrSpec.matches, AddrSpec.portMatches, Cidr.contains, Cidr.everything,
    IpAddr.isV6]

theorem exists_zero_of_matchesAll {s : AddrSpec} (h : s.matchesAll = true) (v6 : Bool) :
    ∃ c ∈ s.cidrs, c.prefixLen = 0 ∧ c.isV6 = v6 := by
  simp only [matchesAll, Bool.and_eq_true, any_eq_true, beq_iff_eq, Bool.not_eq_true'] at h
  obtain ⟨⟨-, c4, hc4, h4⟩, c6, hc6, h6⟩ := h
  cases v6 with
  | false => exact ⟨c4, hc4, h4⟩
  | true => exact ⟨c6, hc6, h6⟩

theorem matchesDest_of_matchesAll {s : AddrSpec} (h : s.matchesAll = true) (host : Option Text)
    (ip : IpAddr) (port : ℕ) : s.matchesDest host ip port = true := by
  obtain ⟨c, hc, hzero, hfamily⟩ := exists_zero_of_matchesAll h ip.isV6
  have hports : s.ports = none := by
    simp only [matchesAll, Bool.and_eq_true, Option.isNone_iff_eq_none] at h
    exact h.1.1
  have hcidr : s.cidrs.any (·.contains ip) = true :=
    any_eq_true.mpr ⟨c, hc, Cidr.contains_of_zero hzero hfamily.symm⟩
  simp [matchesDest, portMatches, hports, hcidr]

end AddrSpec

example : (AddrSpec.any).matchesAll = true := by decide

example : (HostPattern.suffix ['a', '.', 'b']).matches ['X', '.', 'A', '.', 'b', '.'] = true := by
  decide

example : (HostPattern.suffix ['a', '.', 'b']).matches ['x', 'a', '.', 'b'] = false := by decide

end Alighieri.Net
