import Alighieri.Config
import Alighieri.Net.AddrSpec

/-!
# Access rules (acl.rs)

An ordered rule list, evaluated first match wins with a final deny. Client rules
decide admission, socks rules decide requests; `udpAssociateReachable` is the
gate that a UDP ASSOCIATE passes before any destination is known.
-/

namespace Alighieri.Acl
open Net

inductive Verdict where
  | pass
  | block
  deriving DecidableEq, Repr

inductive Scope where
  | client
  | socks
  deriving DecidableEq, Repr

/- The `from:` and `to:` clauses are `source` and `dest`. -/
structure Rule where
  name : Option Text
  verdict : Verdict
  scope : Scope
  source : AddrSpec
  dest : AddrSpec
  commands : List Command
  protocols : List Protocol
  methods : List AuthKind
  bandwidth : Option RateLimit
  sourceLine : ℕ
  deriving DecidableEq, Repr

variable {rules : List Rule}

structure ClientContext where
  clientIp : IpAddr
  clientPort : ℕ
  proxyIp : IpAddr
  proxyPort : ℕ
  deriving DecidableEq, Repr

structure SocksContext where
  clientIp : IpAddr
  clientPort : ℕ
  destHost : Option Text
  destIp : IpAddr
  destPort : ℕ
  command : Command
  protocol : Protocol
  method : AuthKind
  deriving DecidableEq, Repr

structure RuleDecision where
  verdict : Verdict
  sourceLine : Option ℕ
  ruleName : Option Text
  bandwidth : Option RateLimit
  deriving DecidableEq, Repr

def RuleDecision.deny : RuleDecision := ⟨.block, none, none, none⟩

def selects {α : Type} [DecidableEq α] (selector : List α) (x : α) : Bool :=
  selector.isEmpty || selector.contains x

namespace Rule

def matchesClient (r : Rule) (ctx : ClientContext) : Bool :=
  r.scope == .client && r.source.matches ctx.clientIp ctx.clientPort &&
    r.dest.matches ctx.proxyIp ctx.proxyPort

def matchesSocks (r : Rule) (ctx : SocksContext) : Bool :=
  r.scope == .socks && r.source.matches ctx.clientIp ctx.clientPort &&
    r.dest.matchesDest ctx.destHost ctx.destIp ctx.destPort &&
    selects r.commands ctx.command && selects r.protocols ctx.protocol &&
    selects r.methods ctx.method

/- The conditions of `udp_associate_reachable` on one rule; the destination is
not among them. -/
def appliesToUdp (r : Rule) (clientIp : IpAddr) (clientPort : ℕ) (method : AuthKind) : Bool :=
  r.scope == .socks && r.source.matches clientIp clientPort &&
    selects r.commands .udpAssociate && selects r.protocols .udp && selects r.methods method

end Rule

structure RuleSet where
  rules : List Rule
  deriving DecidableEq, Repr

def firstMatch (p : Rule → Bool) : List Rule → Option Rule
  | [] => none
  | r :: rest => if p r then some r else firstMatch p rest

theorem firstMatch_congr {p q : Rule → Bool} (h : ∀ r ∈ rules, p r = q r) :
    firstMatch p rules = firstMatch q rules := by
  induction rules with
  | nil => rfl
  | cons r rest ih =>
    simp only [firstMatch, h r List.mem_cons_self,
      ih fun s hs => h s (List.mem_cons_of_mem _ hs)]

namespace RuleSet

def evaluateClientDetail (rs : RuleSet) (ctx : ClientContext) : RuleDecision :=
  match firstMatch (·.matchesClient ctx) rs.rules with
  | some r => ⟨r.verdict, some r.sourceLine, r.name, none⟩
  | none => .deny

def evaluateSocksDetail (rs : RuleSet) (ctx : SocksContext) : RuleDecision :=
  match firstMatch (·.matchesSocks ctx) rs.rules with
  | some r => ⟨r.verdict, some r.sourceLine, r.name, r.bandwidth⟩
  | none => .deny

/- The loop of `udp_associate_reachable`. -/
def udpReachable (clientIp : IpAddr) (clientPort : ℕ) (method : AuthKind) : List Rule → Bool
  | [] => false
  | r :: rest =>
    if r.appliesToUdp clientIp clientPort method then
      match r.verdict with
      | .pass => true
      | .block => if r.dest.matchesAll then false else udpReachable clientIp clientPort method rest
    else udpReachable clientIp clientPort method rest

def udpAssociateReachable (rs : RuleSet) (clientIp : IpAddr) (clientPort : ℕ)
    (method : AuthKind) : Bool :=
  udpReachable clientIp clientPort method rs.rules

end RuleSet

/- The request the per-datagram authoriser evaluates (connection.rs:932-946). -/
def udpContext (clientIp : IpAddr) (clientPort : ℕ) (method : AuthKind) (host : Option Text)
    (ip : IpAddr) (port : ℕ) : SocksContext :=
  ⟨clientIp, clientPort, host, ip, port, .udpAssociate, .udp, method⟩

theorem matchesSocks_udpContext (r : Rule) (clientIp : IpAddr) (clientPort : ℕ)
    (method : AuthKind) (host : Option Text) (ip : IpAddr) (port : ℕ) :
    r.matchesSocks (udpContext clientIp clientPort method host ip port) =
      (r.appliesToUdp clientIp clientPort method && r.dest.matchesDest host ip port) := by
  simp only [Rule.matchesSocks, Rule.appliesToUdp, udpContext]
  ac_rfl

/- The invariant of the scan: once the gate answers no, whatever rule the
evaluation stops at blocks. -/
theorem firstMatch_block_of_unreachable {clientIp : IpAddr} {clientPort : ℕ} {method : AuthKind}
    (h : RuleSet.udpReachable clientIp clientPort method rules = false) (host : Option Text)
    (ip : IpAddr) (port : ℕ) {r : Rule}
    (hr : firstMatch (·.matchesSocks (udpContext clientIp clientPort method host ip port)) rules =
      some r) : r.verdict = .block := by
  induction rules with
  | nil => cases hr
  | cons q rest ih =>
    simp only [firstMatch, matchesSocks_udpContext] at hr
    simp only [RuleSet.udpReachable] at h
    by_cases happ : q.appliesToUdp clientIp clientPort method = true
    · cases hv : q.verdict with
      | pass => simp [happ, hv] at h
      | block =>
        by_cases hall : q.dest.matchesAll = true
        · -- a categorical block matches whatever the destination is
          simp only [happ, AddrSpec.matchesDest_of_matchesAll hall, Bool.and_self, if_true,
            Option.some.injEq] at hr
          rw [← hr]
          exact hv
        · simp only [happ, hv, hall, if_true, Bool.false_eq_true, if_false] at h
          simp only [← matchesSocks_udpContext] at hr
          split at hr
          · cases hr
            exact hv
          · exact ih h hr
    · simp only [happ, Bool.false_eq_true, if_false] at h
      simp only [happ, Bool.false_and, Bool.false_eq_true, if_false] at hr
      simp only [← matchesSocks_udpContext] at hr
      exact ih h hr

/-- A client the gate turns away could not have sent a datagram anywhere. -/
theorem udp_blocked_when_unreachable (rs : RuleSet) (clientIp : IpAddr) (clientPort : ℕ)
    (method : AuthKind)
    (h : rs.udpAssociateReachable clientIp clientPort method = false) (host : Option Text)
    (ip : IpAddr) (port : ℕ) :
    (rs.evaluateSocksDetail (udpContext clientIp clientPort method host ip port)).verdict =
      .block := by
  simp only [RuleSet.evaluateSocksDetail]
  split
  · rename_i hr
    exact firstMatch_block_of_unreachable h host ip port hr
  · rfl

def blockedThenPassed : RuleSet :=
  ⟨[⟨none, .block, .socks, .any, .any, [], [.udp], [], none, 1⟩,
    ⟨none, .pass, .socks, .any, .any, [], [], [], none, 2⟩]⟩

theorem udp_blocked_when_unreachable_behind_block :
    blockedThenPassed.udpAssociateReachable (.v4 0x0a000001) 4000 .noAuth = false ∧
      (blockedThenPassed.evaluateSocksDetail
        (udpContext (.v4 0x0a000001) 4000 .noAuth none (.v4 0x08080808) 53)).verdict = .block :=
  ⟨by decide, udp_blocked_when_unreachable blockedThenPassed (.v4 0x0a000001) 4000 .noAuth
    (by decide) none (.v4 0x08080808) 53⟩

end Alighieri.Acl
