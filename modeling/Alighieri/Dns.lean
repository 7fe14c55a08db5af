import Alighieri.Socks5
import Mathlib.Data.List.Sort

/-!
# Destination policy after resolution (dns.rs:158-185, 380-393, 517-700)

`applyPolicy` folds IPv4 wrappers, orders the addresses by family preference and
drops the ones a deny category covers. Address literals take the same way as
resolver answers; the per-datagram path asks `addressAllowed` directly.
-/

namespace Alighieri.Dns
open Net Socks5 List

variable {policy : DnsPolicy} {addr : SocketAddr}

/- The deny categories (dns.rs:582-700), on an address already folded. -/
def isPrivate : IpAddr → Bool
  | .v4 ip => isPrivateV4 ip
  | .v6 ip => isUniqueLocal ip

def isLinkLocal : IpAddr → Bool
  | .v4 ip => isLinkLocalV4 ip
  | .v6 ip => isUnicastLinkLocal ip

def isMulticast : IpAddr → Bool
  | .v4 ip => decide (224 ≤ octet ip 0 ∧ octet ip 0 ≤ 239)
  | .v6 ip => segment ip 0 &&& 0xff00 == 0xff00

def isUnspecified : IpAddr → Bool
  | .v4 ip => ip == 0
  | .v6 ip => ip == v6Unspecified

def isDocumentation : IpAddr → Bool
  | .v4 ip =>
    (octet ip 0 == 192 && octet ip 1 == 0 && octet ip 2 == 2) ||
      (octet ip 0 == 198 && octet ip 1 == 51 && octet ip 2 == 100) ||
      (octet ip 0 == 203 && octet ip 1 == 0 && octet ip 2 == 113)
  | .v6 ip => segment ip 0 == 0x2001 && segment ip 1 == 0x0db8

def isReserved : IpAddr → Bool
  | .v4 ip =>
    octet ip 0 == 0 || decide (240 ≤ octet ip 0) ||
      (octet ip 0 == 100 && decide (64 ≤ octet ip 1 ∧ octet ip 1 ≤ 127)) ||
      (octet ip 0 == 192 && octet ip 1 == 0 && octet ip 2 == 0) ||
      (octet ip 0 == 192 && octet ip 1 == 88 && octet ip 2 == 99) ||
      (octet ip 0 == 198 && (octet ip 1 == 18 || octet ip 1 == 19))
  | .v6 ip =>
    ip == v6Unspecified || ip == v6Localhost || isDocumentation (.v6 ip) ||
      -- 6to4 `2002::/16` and the NAT64 prefix `64:ff9b::/96`
      segment ip 0 == 0x2002 ||
      (segment ip 0 == 0x0064 && segment ip 1 == 0xff9b && segment ip 2 == 0 &&
        segment ip 3 == 0 && segment ip 4 == 0 && segment ip 5 == 0) ||
      -- the protocol assignments `2001::/23`
      (segment ip 0 == 0x2001 && segment ip 1 &&& 0xfe00 == 0)

def ipMatchesCategory (ip : IpAddr) : DnsDenyCategory → Bool
  | .priv => isPrivate ip
  | .linkLocal => isLinkLocal ip
  | .loopback => isLoopback ip
  | .multicast => isMulticast ip
  | .unspecified => isUnspecified ip
  | .documentation => isDocumentation ip
  | .reserved => isReserved ip

def addressAllowed (ip : IpAddr) (policy : DnsPolicy) : Bool :=
  !policy.deny.any (ipMatchesCategory (canonicalIp ip))

def setIp : SocketAddr → IpAddr → SocketAddr
  | .v4 _ port, .v4 ip => .v4 ip port
  | .v6 _ port flowinfo scope, .v6 ip => .v6 ip port flowinfo scope
  | addr, ip => .new ip addr.port

def canonicalizeAddrs (addrs : List SocketAddr) : List SocketAddr :=
  addrs.map fun addr => setIp addr (canonicalIp addr.ip)

/- The sort keys of `order_addresses`; `sort_by_key` is stable, and so is the
insertion sort. -/
def familyKey : DnsPreference → SocketAddr → ℕ
  | .system, _ => 0
  | .ipv4, addr => if addr.ip.isV6 then 1 else 0
  | .ipv6, addr => if addr.ip.isV6 then 0 else 1

def orderAddresses (preference : DnsPreference) (addrs : List SocketAddr) : List SocketAddr :=
  addrs.insertionSort fun a b => familyKey preference a ≤ familyKey preference b

def applyPolicy (addrs : List SocketAddr) (policy : DnsPolicy) : List SocketAddr :=
  (orderAddresses policy.preference (canonicalizeAddrs addrs)).filter fun addr =>
    addressAllowed addr.ip policy

/- What a lookup can answer: the system resolver's addresses or an error. -/
abbrev Answer := Except Error (List SocketAddr)

/- `resolve_all`; `answer` is what `resolve_domain` returned for a name. -/
def resolveAll (dest : TargetAddr) (answer : Answer) (policy : DnsPolicy) :
    Except Error (List SocketAddr) :=
  match dest with
  | .ip addr => .ok (applyPolicy [addr] policy)
  | .domain _ _ => answer.map fun addrs => applyPolicy addrs policy

def resolveOne (dest : TargetAddr) (answer : Answer) (policy : DnsPolicy) :
    Except Error (Option SocketAddr) :=
  (resolveAll dest answer policy).map List.head?

@[simp] theorem setIp_ip (addr : SocketAddr) (ip : IpAddr) : (setIp addr ip).ip = ip := by
  cases addr <;> cases ip <;> rfl

@[simp] theorem setIp_port (addr : SocketAddr) (ip : IpAddr) : (setIp addr ip).port = addr.port := by
  cases addr <;> cases ip <;> rfl

theorem addressAllowed_canonicalIp (ip : IpAddr) (policy : DnsPolicy) :
    addressAllowed (canonicalIp ip) policy = addressAllowed ip policy := by
  simp only [addressAllowed, canonicalIp_idem]

theorem mem_applyPolicy {addrs : List SocketAddr} :
    addr ∈ applyPolicy addrs policy ↔
      (∃ a ∈ addrs, setIp a (canonicalIp a.ip) = addr) ∧ addressAllowed addr.ip policy = true := by
  simp only [applyPolicy, orderAddresses, canonicalizeAddrs, mem_filter,
    mem_insertionSort, mem_map]

theorem allowed_of_mem_applyPolicy {addrs : List SocketAddr} (h : addr ∈ applyPolicy addrs policy) :
    canonicalIp addr.ip = addr.ip ∧ addressAllowed addr.ip policy = true := by
  obtain ⟨⟨a, -, ha⟩, hallowed⟩ := mem_applyPolicy.mp h
  refine ⟨?_, hallowed⟩
  rw [← ha, setIp_ip, canonicalIp_idem]

theorem resolveOne_allowed {dest : TargetAddr} {answer : Answer}
    (h : resolveOne dest answer policy = .ok (some addr)) :
    addressAllowed addr.ip policy = true := by
  cases hr : resolveAll dest answer policy with
  | error e => simp [resolveOne, hr, Except.map] at h
  | ok addrs =>
    simp only [resolveOne, hr, Except.map, Except.ok.injEq] at h
    have hmem : addr ∈ addrs := mem_of_mem_head? h
    cases dest with
    | ip a =>
      simp only [resolveAll, Except.ok.injEq] at hr
      rw [← hr] at hmem
      exact (allowed_of_mem_applyPolicy hmem).2
    | domain =>
      cases answer with
      | error e => simp [resolveAll, Except.map] at hr
      | ok =>
        simp only [resolveAll, Except.map, Except.ok.injEq] at hr
        rw [← hr] at hmem
        exact (allowed_of_mem_applyPolicy hmem).2

theorem applyPolicy_singleton (addr : SocketAddr) (policy : DnsPolicy) :
    applyPolicy [addr] policy =
      if addressAllowed addr.ip policy then [setIp addr (canonicalIp addr.ip)] else [] := by
  have hallowed : addressAllowed (setIp addr (canonicalIp addr.ip)).ip policy =
      addressAllowed addr.ip policy := by
    rw [setIp_ip, addressAllowed_canonicalIp]
  simp only [applyPolicy, orderAddresses, canonicalizeAddrs, map_cons, map_nil,
    insertionSort_cons, insertionSort_nil, orderedInsert_nil, filter_cons,
    filter_nil, hallowed]

end Alighieri.Dns
