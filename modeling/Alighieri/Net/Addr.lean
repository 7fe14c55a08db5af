import Mathlib.Data.BitVec
import Mathlib.Tactic.Basic

/-!
# IP and socket addresses

The parts of `std::net` the program uses: an address is its bits, an IPv6 socket
address also carries flow information and a scope. `canonicalIp` is
`dns::canonical_ip` (dns.rs:552-566) and `canonicalizeAddress` is
`protocol::canonicalize_address` (protocol.rs:817-827).
-/

namespace Alighieri.Net

inductive IpAddr where
  | v4 (bits : BitVec 32)
  | v6 (bits : BitVec 128)
  deriving DecidableEq, Repr

inductive SocketAddr where
  | v4 (ip : BitVec 32) (port : ℕ)
  | v6 (ip : BitVec 128) (port flowinfo scope : ℕ)
  deriving DecidableEq, Repr

namespace SocketAddr

def ip : SocketAddr → IpAddr
  | v4 ip _ => .v4 ip
  | v6 ip _ _ _ => .v6 ip

def port : SocketAddr → ℕ
  | v4 _ port => port
  | v6 _ port _ _ => port

def new : IpAddr → ℕ → SocketAddr
  | .v4 ip, port => v4 ip port
  | .v6 ip, port => v6 ip port 0 0

@[simp] theorem new_ip (a : IpAddr) (p : ℕ) : (new a p).ip = a := by cases a <;> rfl

@[simp] theorem new_port (a : IpAddr) (p : ℕ) : (new a p).port = p := by cases a <;> rfl

end SocketAddr

/- `Ipv4Addr::octets`, the first one being the most significant. -/
def octet (ip : BitVec 32) (i : ℕ) : ℕ := ip.toNat / 2 ^ (24 - 8 * i) % 256

def segment (ip : BitVec 128) (i : ℕ) : ℕ := ip.toNat / 2 ^ (112 - 16 * i) % 65536

/- `Ipv6Addr::to_ipv4_mapped`: the prefix `::ffff:0:0/96`. -/
def toIpv4Mapped (ip : BitVec 128) : Option (BitVec 32) :=
  if ip.toNat / 2 ^ 32 = 0xffff then some (ip.setWidth 32) else none

/- `Ipv6Addr::to_ipv4`: the mapped form and the deprecated compatible form. -/
def toIpv4 (ip : BitVec 128) : Option (BitVec 32) :=
  if ip.toNat / 2 ^ 32 = 0xffff ∨ ip.toNat / 2 ^ 32 = 0 then some (ip.setWidth 32) else none

def toCanonical : IpAddr → IpAddr
  | .v4 ip => .v4 ip
  | .v6 ip =>
    match toIpv4Mapped ip with
    | some v4 => .v4 v4
    | none => .v6 ip

def v6Unspecified : BitVec 128 := 0
def v6Localhost : BitVec 128 := 1

def canonicalIp (ip : IpAddr) : IpAddr :=
  match toCanonical ip with
  | .v4 v4 => .v4 v4
  | .v6 v6 =>
    match toIpv4 v6 with
    | some v4 => if v6 ≠ v6Unspecified ∧ v6 ≠ v6Localhost then .v4 v4 else .v6 v6
    | none => .v6 v6

def canonicalizeAddress : SocketAddr → SocketAddr
  | .v4 ip port => .v4 ip port
  | .v6 ip port _ scope =>
    match canonicalIp (.v6 ip) with
    | .v4 v4 => .v4 v4 port
    | .v6 v6 => .v6 v6 port 0 scope

theorem toCanonical_idem (ip : IpAddr) : toCanonical (toCanonical ip) = toCanonical ip := by
  cases ip with
  | v4 => rfl
  | v6 bits => cases h : toIpv4Mapped bits <;> simp [toCanonical, h]

theorem canonicalIp_eq_v6 {ip : IpAddr} {v6 : BitVec 128} (h : canonicalIp ip = .v6 v6) :
    ip = .v6 v6 := by
  cases ip with
  | v4 => simp [canonicalIp, toCanonical] at h
  | v6 bits =>
    cases hm : toIpv4Mapped bits with
    | some v => simp [canonicalIp, toCanonical, hm] at h
    | none =>
      simp only [canonicalIp, toCanonical, hm] at h
      split at h
      · split at h
        · cases h
        · exact h
      · exact h

theorem toCanonical_canonicalIp (ip : IpAddr) : toCanonical (canonicalIp ip) = canonicalIp ip := by
  cases h : canonicalIp ip with
  | v4 => rfl
  | v6 bits =>
    have hip := canonicalIp_eq_v6 h
    rw [hip] at h
    cases hm : toIpv4Mapped bits with
    | some v => simp [canonicalIp, toCanonical, hm] at h
    | none => simp only [toCanonical, hm]

/- The deprecated form `::a.b.c.d`, which `to_canonical` leaves alone; `::` and
`::1` are not of this form. -/
def Ipv4Compatible (ip : IpAddr) : Prop :=
  ∃ bits : BitVec 128, ip = .v6 bits ∧ 1 < bits.toNat ∧ bits.toNat < 2 ^ 32

theorem compatible_ne {bits : BitVec 128} (h : 1 < bits.toNat) :
    bits ≠ v6Unspecified ∧ bits ≠ v6Localhost := by
  constructor
  · intro heq
    rw [heq] at h
    revert h
    decide
  · intro heq
    rw [heq] at h
    revert h
    decide

theorem toCanonical_eq_canonicalIp {ip : IpAddr} (h : ¬Ipv4Compatible ip) :
    toCanonical ip = canonicalIp ip := by
  cases ip with
  | v4 => rfl
  | v6 bits =>
    cases hm : toIpv4Mapped bits with
    | some v => simp [canonicalIp, toCanonical, hm]
    | none =>
      simp only [canonicalIp, toCanonical, hm]
      split
      · rename_i hv
        rw [if_neg]
        rintro ⟨hne0, hne1⟩
        -- not mapped, so the wrapper is the compatible one
        have hlow : bits.toNat / 2 ^ 32 = 0 := by
          simp only [toIpv4] at hv
          simp only [toIpv4Mapped] at hm
          split at hv
          · rename_i hor
            split at hm
            · cases hm
            · rename_i hnot
              exact hor.resolve_left hnot
          · cases hv
        have h0 : bits.toNat ≠ 0 := fun heq => hne0 (BitVec.eq_of_toNat_eq heq)
        have h1 : bits.toNat ≠ 1 := fun heq => hne1 (BitVec.eq_of_toNat_eq heq)
        exact h ⟨bits, rfl, by omega, by omega⟩
      · rfl

theorem canonicalIp_compatible {bits : BitVec 128} (h1 : 1 < bits.toNat)
    (h2 : bits.toNat < 2 ^ 32) :
    toCanonical (.v6 bits) = .v6 bits ∧ canonicalIp (.v6 bits) = .v4 (bits.setWidth 32) := by
  have hdiv : bits.toNat / 2 ^ 32 = 0 := by omega
  have hm : toIpv4Mapped bits = none := by rw [toIpv4Mapped, if_neg (by omega)]
  have hv : toIpv4 bits = some (bits.setWidth 32) := by rw [toIpv4, if_pos (.inr hdiv)]
  have hne := compatible_ne h1
  refine ⟨by simp only [toCanonical, hm], ?_⟩
  simp only [canonicalIp, toCanonical, hm, hv, if_pos hne]

theorem canonicalIp_idem (ip : IpAddr) : canonicalIp (canonicalIp ip) = canonicalIp ip := by
  cases h : canonicalIp ip with
  | v4 => rfl
  | v6 =>
    rw [← canonicalIp_eq_v6 h]
    exact h.trans (canonicalIp_eq_v6 h).symm

theorem canonicalizeAddress_ip (a : SocketAddr) :
    (canonicalizeAddress a).ip = canonicalIp a.ip := by
  cases a with
  | v4 => rfl
  | v6 ip =>
    cases h : canonicalIp (.v6 ip) <;> simp [canonicalizeAddress, SocketAddr.ip, h]

@[simp] theorem canonicalizeAddress_port (a : SocketAddr) :
    (canonicalizeAddress a).port = a.port := by
  cases a with
  | v4 => rfl
  | v6 =>
    simp only [canonicalizeAddress]
    split <;> rfl

theorem canonicalizeAddress_idem (a : SocketAddr) :
    canonicalizeAddress (canonicalizeAddress a) = canonicalizeAddress a := by
  cases a with
  | v4 => rfl
  | v6 ip =>
    cases h : canonicalIp (.v6 ip) with
    | v4 v => simp [canonicalizeAddress, h]
    | v6 v =>
      have hv : canonicalIp (.v6 v) = .v6 v := by
        have := canonicalIp_eq_v6 h
        rw [← this]
        exact h.trans this.symm
      simp [canonicalizeAddress, h, hv]

/- The std predicates used by the agent policy and the deny categories. -/
def isLoopback : IpAddr → Bool
  | .v4 ip => octet ip 0 == 127
  | .v6 ip => ip == v6Localhost

def isPrivateV4 (ip : BitVec 32) : Bool :=
  octet ip 0 == 10 || (octet ip 0 == 172 && decide (16 ≤ octet ip 1 ∧ octet ip 1 ≤ 31)) ||
    (octet ip 0 == 192 && octet ip 1 == 168)

def isLinkLocalV4 (ip : BitVec 32) : Bool := octet ip 0 == 169 && octet ip 1 == 254

def isUnicastLinkLocal (ip : BitVec 128) : Bool := segment ip 0 &&& 0xffc0 == 0xfe80

def isUniqueLocal (ip : BitVec 128) : Bool := segment ip 0 &&& 0xfe00 == 0xfc00

example : canonicalIp (.v6 0xffff7f000001) = .v4 0x7f000001 := by decide

example : canonicalIp (.v6 1) = .v6 1 := by decide

end Alighieri.Net
