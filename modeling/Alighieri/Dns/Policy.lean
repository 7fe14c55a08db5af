import Alighieri.Dns

/-!
# What the destination policy returns (dns.rs:388-393, 517-579)

The folded addresses that pass, rearranged by the sort key with the order inside one key kept.
-/

namespace Alighieri.Dns
open Net List

/-! ### A stable sort by a key -/

section KeyOrder

variable {α : Type} (key : α → ℕ)

theorem pairwise_sortBy (l : List α) :
    (l.insertionSort fun a b => key a ≤ key b).Pairwise fun a b => key a ≤ key b := by
  have htotal : Std.Total fun a b : α => key a ≤ key b := ⟨fun a b => Nat.le_total _ _⟩
  have htrans : IsTrans α fun a b => key a ≤ key b := ⟨fun _ _ _ => Nat.le_trans⟩
  exact pairwise_insertionSort _ l

theorem filter_sortBy (l : List α) (k : ℕ) :
    (l.insertionSort fun a b => key a ≤ key b).filter (fun a => key a = k) =
      l.filter fun a => key a = k := by
  have hperm := (perm_insertionSort (fun a b => key a ≤ key b) l).filter
    fun a => decide (key a = k)
  have hsame : (l.filter fun a => decide (key a = k)).Pairwise fun a b => key a ≤ key b := by
    refine pairwise_of_forall_mem_list ?_
    intro a ha b hb
    rw [mem_filter, decide_eq_true_eq] at ha hb
    rw [ha.2, hb.2]
  have hsub := (sublist_insertionSort hsame filter_sublist).filter
    fun a => decide (key a = k)
  rw [filter_filter] at hsub
  simp only [Bool.and_self] at hsub
  exact (hsub.eq_of_length hperm.length_eq.symm).symm

end KeyOrder

/-! ### Folded addresses -/

/- `::ffff:a.b.c.d`, and `::a.b.c.d` other than `::` and `::1`. -/
def Ipv4Wrapper (ip : IpAddr) : Prop :=
  ∃ bits : BitVec 128, ip = .v6 bits ∧
    (bits.toNat / 2 ^ 32 = 0xffff ∨ 1 < bits.toNat ∧ bits.toNat < 2 ^ 32)

theorem not_wrapper_canonicalIp (ip : IpAddr) : ¬ Ipv4Wrapper (canonicalIp ip) := by
  rintro ⟨bits, hbits, hform⟩
  have hfix : canonicalIp (.v6 bits) = .v6 bits := by
    rw [← hbits, canonicalIp_idem]
  rcases hform with hmapped | ⟨hlow, hhigh⟩
  · have hv4 : canonicalIp (.v6 bits) = .v4 (bits.setWidth 32) := by
      simp only [canonicalIp, toCanonical, toIpv4Mapped, hmapped, if_true]
    rw [hv4] at hfix
    cases hfix
  · rw [(canonicalIp_compatible hlow hhigh).2] at hfix
    cases hfix

theorem setIp_self (addr : SocketAddr) : setIp addr addr.ip = addr := by
  cases addr <;> rfl

theorem canonicalizeAddrs_eq_self {addrs : List SocketAddr}
    (h : ∀ a ∈ addrs, canonicalIp a.ip = a.ip) : canonicalizeAddrs addrs = addrs := by
  have hid : ∀ a ∈ addrs, setIp a (canonicalIp a.ip) = a := by
    intro a ha
    rw [h a ha, setIp_self]
  rw [canonicalizeAddrs, map_congr_left hid, map_id']

/-! ### The result of the policy -/

def passing (addrs : List SocketAddr) (policy : DnsPolicy) : List SocketAddr :=
  (canonicalizeAddrs addrs).filter fun addr => addressAllowed addr.ip policy

theorem applyPolicy_perm (addrs : List SocketAddr) (policy : DnsPolicy) :
    (applyPolicy addrs policy).Perm (passing addrs policy) :=
  (perm_insertionSort _ _).filter _

theorem applyPolicy_sorted (addrs : List SocketAddr) (policy : DnsPolicy) :
    (applyPolicy addrs policy).Pairwise fun a b =>
      familyKey policy.preference a ≤ familyKey policy.preference b :=
  (pairwise_sortBy (familyKey policy.preference) _).sublist filter_sublist

theorem applyPolicy_stable (addrs : List SocketAddr) (policy : DnsPolicy) (k : ℕ) :
    (applyPolicy addrs policy).filter (fun a => familyKey policy.preference a = k) =
      (passing addrs policy).filter fun a => familyKey policy.preference a = k := by
  have hsort := filter_sortBy (familyKey policy.preference) (canonicalizeAddrs addrs) k
  rw [applyPolicy, passing, orderAddresses, filter_comm, hsort, filter_comm]

theorem applyPolicy_idem (addrs : List SocketAddr) (policy : DnsPolicy) :
    applyPolicy (applyPolicy addrs policy) policy = applyPolicy addrs policy := by
  have hall := fun a (ha : a ∈ applyPolicy addrs policy) => allowed_of_mem_applyPolicy ha
  have hcanonical := canonicalizeAddrs_eq_self fun a ha => (hall a ha).1
  have hsorted : orderAddresses policy.preference (applyPolicy addrs policy) =
      applyPolicy addrs policy := (applyPolicy_sorted addrs policy).insertionSort_eq
  have hkept : (applyPolicy addrs policy).filter (fun a => addressAllowed a.ip policy) =
      applyPolicy addrs policy := filter_eq_self.mpr fun a ha => (hall a ha).2
  conv_lhs => rw [applyPolicy, hcanonical, hsorted]
  exact hkept

theorem not_wrapper_of_mem_applyPolicy {addrs : List SocketAddr} {policy : DnsPolicy}
    {addr : SocketAddr} (h : addr ∈ applyPolicy addrs policy) : ¬ Ipv4Wrapper addr.ip := by
  rw [← (allowed_of_mem_applyPolicy h).1]
  exact not_wrapper_canonicalIp addr.ip

example : applyPolicy [.v6 0xffff08080808 53 0 0, .v6 (0x2a00 <<< 112) 53 7 3, .v4 0x7f000001 53]
    ⟨.ipv6, false, [.loopback]⟩ = [.v6 (0x2a00 <<< 112) 53 7 3, .v4 0x08080808 53] := by decide

end Alighieri.Dns
