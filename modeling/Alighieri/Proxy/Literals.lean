import Alighieri.Proxy.Mediation

/-!
# Address literals over TCP and UDP

A CONNECT to a literal goes through `apply_policy`, which folds both IPv4-in-IPv6 wrappers, before
the rules are asked. The per-datagram path (relay.rs:915-941) and `UpstreamOriginator::authorize`
(relay.rs:1383-1392) fold the mapped form only.
-/

namespace Alighieri.Proxy
open Net Socks5 Dns Acl Relay.Udp

variable {addr : SocketAddr}

/- The address the rules are asked about, when the deny policy lets one through. -/
def connectAclIp (policy : DnsPolicy) (addr : SocketAddr) : Option IpAddr :=
  (applyPolicy [addr] policy).head?.map fun target => toCanonical target.ip

def datagramAclIp (policy : DnsPolicy) (addr : SocketAddr) : Option IpAddr :=
  (literalDest policy addr).map fun dest => toCanonical dest.ip

/- The verdict on a CONNECT to a literal: the only candidate is authorised. -/
def connectVerdict (c : Connection) (method : AuthKind) (addr : SocketAddr) : Bool :=
  (applyPolicy [addr] c.config.dns).head?.any fun target =>
    (c.authorizeConnectTarget method none target).verdict == .pass

/- The verdict on a datagram to a literal in the core relay. -/
def datagramVerdict (c : Connection) (method : AuthKind) (addr : SocketAddr) : Bool :=
  (literalDest c.config.dns addr).any fun dest => c.authorizeDatagram method none dest.ip dest.port

/- The verdict of the facade a plugin sends through. -/
def upstreamVerdict (c : Connection) (method : AuthKind) (addr : SocketAddr) : Bool :=
  (upstreamAuthorize (associateOptions c (.ip addr) method false) none addr).isSome

/-! ### Rules that mention neither protocol nor command -/

/- Such rules cannot tell a CONNECT from a datagram. -/
def Neutral (rs : RuleSet) : Prop := ∀ r ∈ rs.rules, r.commands = [] ∧ r.protocols = []

theorem evaluateSocksDetail_neutral {rs : RuleSet} (hn : Neutral rs) (ctx : SocksContext)
    (command : Command) (protocol : Protocol) :
    rs.evaluateSocksDetail { ctx with command := command, protocol := protocol } =
      rs.evaluateSocksDetail ctx := by
  have hmatch : ∀ r ∈ rs.rules,
      r.matchesSocks { ctx with command := command, protocol := protocol } =
        r.matchesSocks ctx := by
    intro r hr
    obtain ⟨hc, hp⟩ := hn r hr
    simp [Rule.matchesSocks, selects, hc, hp]
  simp only [RuleSet.evaluateSocksDetail, firstMatch_congr hmatch]

theorem datagramVerdict_eq_upstreamVerdict (c : Connection) (method : AuthKind)
    (addr : SocketAddr) : datagramVerdict c method addr = upstreamVerdict c method addr := by
  simp only [datagramVerdict, upstreamVerdict, literalDest, upstreamAuthorize, associateOptions]
  by_cases hall : addressAllowed (toCanonical addr.ip) c.config.dns = true
  · by_cases hauth : c.authorizeDatagram method none (toCanonical addr.ip) addr.port = true
    · simp [hall, hauth]
    · simp [hall, hauth]
  · simp [hall]

theorem connectAclIp_eq_datagramAclIp (h : ¬Ipv4Compatible addr.ip) (policy : DnsPolicy) :
    connectAclIp policy addr = datagramAclIp policy addr := by
  have hcanon := toCanonical_eq_canonicalIp h
  simp only [connectAclIp, datagramAclIp, applyPolicy_singleton, literalDest, canonical_ip, hcanon,
    addressAllowed_canonicalIp]
  cases addressAllowed addr.ip policy with
  | false => rfl
  | true => simp [hcanon]

theorem verdicts_agree (h : ¬Ipv4Compatible addr.ip) (c : Connection) (method : AuthKind)
    (hn : Neutral c.config.rules) :
    connectVerdict c method addr = datagramVerdict c method addr := by
  have hcanon := toCanonical_eq_canonicalIp h
  have hdecide : (c.authorizeConnectTarget method none
      (setIp addr (canonicalIp addr.ip))).verdict = (c.config.rules.evaluateSocksDetail
        (udpContext (toCanonical c.peer.ip) c.peer.port method none (canonicalIp addr.ip)
          addr.port)).verdict := by
    have hneutral := evaluateSocksDetail_neutral hn
      (c.connectContext method none (setIp addr (canonicalIp addr.ip))) .udpAssociate .udp
    simp only [Connection.connectContext, setIp_ip, setIp_port, toCanonical_canonicalIp] at hneutral
    simp only [Connection.authorizeConnectTarget, Connection.connectContext, setIp_ip, setIp_port,
      toCanonical_canonicalIp, udpContext, hneutral]
  simp only [connectVerdict, datagramVerdict, applyPolicy_singleton, literalDest, canonical_ip,
    hcanon, addressAllowed_canonicalIp, Connection.authorizeDatagram]
  cases addressAllowed addr.ip c.config.dns with
  | false => rfl
  | true =>
    simp only [if_true, List.head?_cons, Option.any_some, hdecide, canonical_ip, canonical_port,
      hcanon, toCanonical_canonicalIp]

/-! ### The compatible form -/

def passIpv4 : RuleSet :=
  ⟨[⟨none, .pass, .socks, .any, .new (Cidr.everything false) none, [], [], [], none, 1⟩]⟩

def ipv4Only : Connection :=
  ⟨⟨.direct, [.noAuth], passIpv4, ⟨.system, false, []⟩, false⟩, .v4 0x0a000001 4000,
    .v4 0x0a0000fe 1080, false⟩

theorem neutral_passIpv4 : Neutral passIpv4 := by
  intro r hr
  rw [passIpv4, List.mem_singleton] at hr
  rw [hr]
  exact ⟨rfl, rfl⟩

theorem evaluate_passIpv4 (ip : IpAddr) (port : ℕ) (command : Command) (protocol : Protocol) :
    (passIpv4.evaluateSocksDetail ⟨.v4 0x0a000001, 4000, none, ip, port, command, protocol,
      .noAuth⟩).verdict = if ip.isV6 then .block else .pass := by
  cases ip <;>
    simp [passIpv4, RuleSet.evaluateSocksDetail, firstMatch, Rule.matchesSocks, selects,
      AddrSpec.matchesDest, AddrSpec.new, AddrSpec.portMatches, Cidr.contains, Cidr.everything,
      IpAddr.isV6, RuleDecision.deny]

theorem verdicts_differ (h : Ipv4Compatible addr.ip) :
    connectVerdict ipv4Only .noAuth addr = true ∧
      datagramVerdict ipv4Only .noAuth addr = false := by
  obtain ⟨bits, hip, h1, h2⟩ := h
  obtain ⟨hcanon, hfold⟩ := canonicalIp_compatible h1 h2
  have hallowed : ∀ ip, addressAllowed ip ipv4Only.config.dns = true := fun ip => rfl
  constructor
  · simp only [connectVerdict, applyPolicy_singleton, hallowed, if_true, List.head?_cons,
      Option.any_some, Connection.authorizeConnectTarget, Connection.connectContext, setIp_ip,
      hip, hfold]
    exact beq_iff_eq.mpr (evaluate_passIpv4 _ _ _ _)
  · simp only [datagramVerdict, literalDest, hallowed, if_true, Option.any_some,
      Connection.authorizeDatagram, canonical_ip, hip, hcanon, udpContext]
    rw [show ipv4Only.config.rules = passIpv4 from rfl,
      show toCanonical ipv4Only.peer.ip = .v4 0x0a000001 from rfl,
      show ipv4Only.peer.port = 4000 from rfl, evaluate_passIpv4]
    rfl

/-- An address literal gets one verdict from a CONNECT, a datagram and the plugin's facade, under
every policy and all rules that do not tell these apart, exactly when it is not in the
IPv4-compatible form. -/
theorem literal_verdicts_agree_exactly (addr : SocketAddr) :
    ((∀ policy, connectAclIp policy addr = datagramAclIp policy addr) ∧
      ∀ c method, Neutral c.config.rules →
        connectVerdict c method addr = datagramVerdict c method addr ∧
          connectVerdict c method addr = upstreamVerdict c method addr) ↔
      ¬Ipv4Compatible addr.ip := by
  constructor
  · rintro ⟨-, h⟩ hcompat
    obtain ⟨htcp, hudp⟩ := verdicts_differ hcompat
    have hagree := (h ipv4Only .noAuth neutral_passIpv4).1
    rw [htcp, hudp] at hagree
    cases hagree
  · intro h
    refine ⟨connectAclIp_eq_datagramAclIp h, ?_⟩
    intro c method hn
    have hagree := verdicts_agree h c method hn
    exact ⟨hagree, hagree.trans (datagramVerdict_eq_upstreamVerdict c method addr)⟩

theorem literal_verdicts_agree_exactly_mapped :
    connectVerdict ipv4Only .noAuth (.v6 0xffff08080808 53 0 0) =
        datagramVerdict ipv4Only .noAuth (.v6 0xffff08080808 53 0 0) ∧
      connectVerdict ipv4Only .noAuth (.v6 0xffff08080808 53 0 0) =
        upstreamVerdict ipv4Only .noAuth (.v6 0xffff08080808 53 0 0) := by
  have hmapped : ¬Ipv4Compatible (.v6 0xffff08080808) := by
    rintro ⟨bits, hbits, -, hlow⟩
    cases hbits
    revert hlow
    decide
  exact ((literal_verdicts_agree_exactly (.v6 0xffff08080808 53 0 0)).mpr hmapped).2 ipv4Only
    .noAuth neutral_passIpv4

theorem literal_verdicts_differ_on_compatible :
    connectVerdict ipv4Only .noAuth (.v6 0x08080808 53 0 0) = true ∧
      datagramVerdict ipv4Only .noAuth (.v6 0x08080808 53 0 0) = false ∧
      upstreamVerdict ipv4Only .noAuth (.v6 0x08080808 53 0 0) = false := by
  decide

/-- A CONNECT to a literal dials the folded address and nothing else if the policy and the rules pass
it, and otherwise nothing. -/
theorem dialled_literal (c : Connection) (w : World) (method : AuthKind) (addr : SocketAddr)
    (h : c.config.egress = .direct) :
    dialled (handleConnect c w ⟨.connect, .ip addr⟩ method).actions =
      if connectVerdict c method addr then [setIp addr (canonicalIp addr.ip)] else [] := by
  simp only [handleConnect, h, handleConnectDirect, resolveAll, connectVerdict,
    applyPolicy_singleton, TargetAddr.host]
  cases hall : addressAllowed addr.ip c.config.dns with
  | false => simp
  | true =>
    have hcand : candidates c.config.dns [setIp addr (canonicalIp addr.ip)] =
        [setIp addr (canonicalIp addr.ip)] := by
      cases htry : c.config.dns.tryAll <;> simp [candidates, htry]
    simp only [if_true, List.head?_cons, Option.any_some, beq_iff_eq, dialled_finishConnect, hcand]
    by_cases hv : (c.authorizeConnectTarget method none
        (setIp addr (canonicalIp addr.ip))).verdict = .pass
    · have hact : (attemptDirect w 0 (setIp addr (canonicalIp addr.ip))).action =
          some (.connect (setIp addr (canonicalIp addr.ip))) := rfl
      cases hf : (attemptDirect w 0 (setIp addr (canonicalIp addr.ip))).failure <;>
        cases htry : c.config.dns.tryAll <;>
        simp [tryCandidates, hv, hf, hact, dialled, Action.dialAddress]
    · simp [tryCandidates, hv]

theorem dialled_literal_mapped :
    dialled (handleConnect ipv4Only plainWorld ⟨.connect, .ip (.v6 0xffff08080808 53 0 0)⟩
      .noAuth).actions = [.v4 0x08080808 53] :=
  (dialled_literal ipv4Only plainWorld .noAuth (.v6 0xffff08080808 53 0 0) rfl).trans (by decide)

end Alighieri.Proxy
