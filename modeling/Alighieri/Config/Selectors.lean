import Alighieri.Config.RuleValues
import Alighieri.Lib.LastWins

/-!
# The selectors of a rule block (config.rs:1548-1662; acl.rs:109-126)

The rule that `parseRule` builds keeps the last directive of each kind, the matcher of a client
rule looks at `from` and `to` only, and the words behind `log` are not read at all. So a request
that the rule matches can break a directive that was written, and a word can be written that no
directive takes. `Clear` is what a block has to keep to for none of this to happen.
-/

namespace Alighieri.Config
open Net Acl List Except LastWins Directive AddrSpec
open Socks5 (Error)

inductive Request where
  | client (ctx : ClientContext)
  | socks (ctx : SocksContext)

namespace Request

def scope : Request → Scope
  | client _ => .client
  | socks _ => .socks

/- Ports are 16 bits wide. -/
def InRange : Request → Prop
  | client ctx => ctx.clientPort ≤ 65535 ∧ ctx.proxyPort ≤ 65535
  | socks ctx => ctx.clientPort ≤ 65535 ∧ ctx.destPort ≤ 65535

def matchedBy (rule : Rule) : Request → Bool
  | client ctx => rule.matchesClient ctx
  | socks ctx => rule.matchesSocks ctx

/- The request `b` with what the directives of one kind look at taken from `x`. -/
def graft (k : Option BodyKey) : Request → Request → Request
  | client x, client b =>
    match k with
    | some .source => client { b with clientIp := x.clientIp, clientPort := x.clientPort }
    | some .dest => client { b with proxyIp := x.proxyIp, proxyPort := x.proxyPort }
    | _ => client b
  | socks x, socks b =>
    match k with
    | some .source => socks { b with clientIp := x.clientIp, clientPort := x.clientPort }
    | some .dest =>
      socks { b with destHost := x.destHost, destIp := x.destIp, destPort := x.destPort }
    | some .protocol => socks { b with protocol := x.protocol }
    | some .command => socks { b with command := x.command }
    | some .method => socks { b with method := x.method }
    | _ => socks b
  | _, b => b

end Request

variable {b x : Request} {α ε : Type} {spec : AddrSpec}

open Request

/-- The request is one the directive is about. A client connection is a TCP connection, without a
command or a method; `bandwidth` and `log` select nothing. -/
def Directive.SatisfiedBy (lineno : ℕ) (d : Directive) : Request → Prop
  | .client ctx =>
    match d.key with
    | some .source => ∃ spec, parseAddrSpec d.vals lineno false = .ok spec ∧
        spec.matches ctx.clientIp ctx.clientPort = true
    | some .dest => ∃ spec, parseAddrSpec d.vals lineno false = .ok spec ∧
        spec.matches ctx.proxyIp ctx.proxyPort = true
    | some .protocol => ∃ out, parseProtocols d.vals lineno = .ok out ∧ .tcp ∈ out
    | some .command | some .method => False
    | _ => True
  | .socks ctx =>
    match d.key with
    | some .source => ∃ spec, parseAddrSpec d.vals lineno false = .ok spec ∧
        spec.matches ctx.clientIp ctx.clientPort = true
    | some .dest => ∃ spec, parseAddrSpec d.vals lineno true = .ok spec ∧
        spec.matchesDest ctx.destHost ctx.destIp ctx.destPort = true
    | some .protocol => ∃ out, parseProtocols d.vals lineno = .ok out ∧ ctx.protocol ∈ out
    | some .command => ∃ out, parseCommands d.vals lineno = .ok out ∧ ctx.command ∈ out
    | some .method => ∃ out, parseMethods d.vals lineno = .ok out ∧ ctx.method ∈ out
    | _ => True

/-! ### Directives of different kinds are independent -/

variable {k : Option BodyKey} {c c' : Clauses} {rule : Rule} {req : Request}

theorem Request.graft_inRange (hscope : x.scope = b.scope) (hx : x.InRange) (hb : b.InRange) :
    (graft k x b).scope = b.scope ∧ (graft k x b).InRange := by
  rcases k with _ | k
  · cases x <;> cases b <;> exact ⟨rfl, hb⟩
  · cases x with
    | client x =>
      cases b with
      | client b =>
        cases k <;> first
          | exact ⟨rfl, hb⟩
          | exact ⟨rfl, hx.1, hb.2⟩
          | exact ⟨rfl, hb.1, hx.2⟩
      | socks b => cases hscope
    | socks x =>
      cases b with
      | client b => cases hscope
      | socks b =>
        cases k <;> first
          | exact ⟨rfl, hb⟩
          | exact ⟨rfl, hx.1, hb.2⟩
          | exact ⟨rfl, hb.1, hx.2⟩

variable {lineno : ℕ} {d : Directive}

theorem Directive.satisfiedBy_graft_same (hscope : x.scope = b.scope) :
    d.SatisfiedBy lineno (graft d.key x b) ↔ d.SatisfiedBy lineno x := by
  cases x with
  | client x =>
    cases b with
    | client b =>
      cases hk : d.key with
      | none => simp only [SatisfiedBy, graft, hk]
      | some k => cases k <;> simp only [SatisfiedBy, graft, hk]
    | socks b => cases hscope
  | socks x =>
    cases b with
    | client b => cases hscope
    | socks b =>
      cases hk : d.key with
      | none => simp only [SatisfiedBy, graft, hk]
      | some k => cases k <;> simp only [SatisfiedBy, graft, hk]

theorem Directive.satisfiedBy_graft_other (hne : d.key ≠ k) (hscope : x.scope = b.scope) :
    d.SatisfiedBy lineno (graft k x b) ↔ d.SatisfiedBy lineno b := by
  rcases k with _ | k
  · cases x <;> cases b <;> rfl
  · cases x with
    | client x =>
      cases b with
      | client b =>
        cases k with
        | source | dest =>
          cases hk : d.key with
          | none => simp only [SatisfiedBy, graft, hk]
          | some j =>
            cases j <;> first
              | exact absurd hk hne
              | simp only [SatisfiedBy, graft, hk]
        | _ => rfl
      | socks b => cases hscope
    | socks x =>
      cases b with
      | client b => cases hscope
      | socks b =>
        cases k with
        | bandwidth | log => rfl
        | _ =>
          cases hk : d.key with
          | none => simp only [SatisfiedBy, graft, hk]
          | some j =>
            cases j <;> first
              | exact absurd hk hne
              | simp only [SatisfiedBy, graft, hk]

def reading (scope : Scope) (lineno : ℕ) : LastWins.Reading Directive (Option BodyKey) Request where
  key := key
  allows := SatisfiedBy lineno
  dom req := req.scope = scope ∧ req.InRange
  graft := graft
  graft_dom := by
    intro k x b hx hb
    obtain ⟨hscope, hrange⟩ := graft_inRange (k := k) (hx.1.trans hb.1.symm) hx.2 hb.2
    exact ⟨hscope.trans hb.1, hrange⟩
  graft_same hx hb := satisfiedBy_graft_same (hx.1.trans hb.1.symm)
  graft_other hne hx hb := satisfiedBy_graft_other hne (hx.1.trans hb.1.symm)

/-! ### The clauses of a rule -/

/- Whether the matcher of a scope looks at the clause of a directive. -/
def reads : Scope → Option BodyKey → Bool
  | .client, some .protocol | .client, some .command | .client, some .method => false
  | _, _ => true

/- What the clause of a kind lets through. -/
def Clauses.Allows (c : Clauses) (k : Option BodyKey) : Request → Prop
  | .client ctx =>
    match k with
    | some .source => (c.source.getD any).matches ctx.clientIp ctx.clientPort = true
    | some .dest => (c.dest.getD any).matches ctx.proxyIp ctx.proxyPort = true
    | _ => True
  | .socks ctx =>
    match k with
    | some .source => (c.source.getD any).matches ctx.clientIp ctx.clientPort = true
    | some .dest =>
      (c.dest.getD any).matchesDest ctx.destHost ctx.destIp ctx.destPort = true
    | some .protocol => selects c.protocols ctx.protocol = true
    | some .command => selects c.commands ctx.command = true
    | some .method => selects c.methods ctx.method = true
    | _ => True

theorem Clauses.empty_allows (k : Option BodyKey) (req : Request) : Clauses.empty.Allows k req := by
  have hany : ∀ host ip port, any.matchesDest host ip port = true :=
    fun host ip port => matchesDest_of_matchesAll (by decide) host ip port
  cases req <;> rcases k with _ | k <;> try trivial
  all_goals
    cases k <;> first
      | trivial
      | exact any_matches _ _
      | exact hany _ _ _

theorem selects_iff [DecidableEq α] {selector : List α} (h : selector ≠ []) {x : α} :
    selects selector x = true ↔ x ∈ selector := by
  cases selector with
  | nil => exact absurd rfl h
  | cons =>
    rw [selects, Bool.or_eq_true, contains_iff_mem]
    simp only [isEmpty_cons, Bool.false_eq_true, false_or]

theorem exists_ok_iff {x : Except ε α} {v : α} {p : α → Prop} (h : x = .ok v) :
    (∃ u, x = .ok u ∧ p u) ↔ p v := by
  constructor
  · rintro ⟨u, hu, hp⟩
    rw [h] at hu
    cases hu
    exact hp
  · exact fun hp => ⟨v, h, hp⟩

variable {scope : Scope}

theorem applyDirective_fields (h : applyDirective scope lineno c d = .ok c') :
    (d.key ≠ some .source → c'.source = c.source) ∧ (d.key ≠ some .dest → c'.dest = c.dest) ∧
      (d.key ≠ some .protocol → c'.protocols = c.protocols) ∧
      (d.key ≠ some .command → c'.commands = c.commands) ∧
      (d.key ≠ some .method → c'.methods = c.methods) := by
  unfold applyDirective at h
  split at h
  case h_6 =>
    split at h
    · obtain ⟨limit, -, h⟩ := of_bind_ok h
      cases h
      exact ⟨fun _ => rfl, fun _ => rfl, fun _ => rfl, fun _ => rfl, fun _ => rfl⟩
    · cases h
  case h_7 =>
    cases h
    exact ⟨fun _ => rfl, fun _ => rfl, fun _ => rfl, fun _ => rfl, fun _ => rfl⟩
  case h_8 => cases h
  all_goals
    rename_i hk
    obtain ⟨value, -, h⟩ := of_bind_ok h
    cases h
    simp [hk]

theorem applyDirective_frame (h : applyDirective scope lineno c d = .ok c') (hne : d.key ≠ k)
    (req : Request) : c'.Allows k req ↔ c.Allows k req := by
  obtain ⟨hsource, hdest, hprotocols, hcommands, hmethods⟩ := applyDirective_fields h
  rcases k with _ | k
  · cases req <;> rfl
  · cases k with
    | source => cases req <;> simp only [Clauses.Allows, hsource hne]
    | dest => cases req <;> simp only [Clauses.Allows, hdest hne]
    | protocol => cases req <;> simp only [Clauses.Allows, hprotocols hne]
    | command => cases req <;> simp only [Clauses.Allows, hcommands hne]
    | method => cases req <;> simp only [Clauses.Allows, hmethods hne]
    | bandwidth | log => cases req <;> rfl

theorem applyDirective_sets (h : applyDirective scope lineno c d = .ok c')
    (hreads : reads scope d.key = true) (hscope : req.scope = scope) :
    c'.Allows d.key req ↔ d.SatisfiedBy lineno req := by
  subst hscope
  unfold applyDirective at h
  split at h <;> rename_i hk <;> rw [hk] at hreads ⊢
  case h_1 =>
    obtain ⟨spec, hspec, h⟩ := of_bind_ok h
    cases h
    cases req <;> simp only [SatisfiedBy, Clauses.Allows, hk, exists_ok_iff hspec,
      Option.getD_some]
  case h_2 =>
    obtain ⟨spec, hspec, h⟩ := of_bind_ok h
    cases h
    cases req with
    | client ctx =>
      have hclient : parseAddrSpec d.vals lineno false = .ok spec := hspec
      simp only [SatisfiedBy, Clauses.Allows, hk, exists_ok_iff hclient,
        Option.getD_some]
    | socks ctx =>
      have hsocks : parseAddrSpec d.vals lineno true = .ok spec := hspec
      simp only [SatisfiedBy, Clauses.Allows, hk, exists_ok_iff hsocks,
        Option.getD_some]
  case h_3 | h_4 | h_5 =>
    obtain ⟨out, hout, h⟩ := of_bind_ok h
    cases h
    cases req with
    | client ctx => cases hreads
    | socks ctx =>
      simp only [SatisfiedBy, Clauses.Allows, hk, exists_ok_iff hout,
        selects_iff (parseWords_ne_nil hout)]
  case h_8 => cases h
  all_goals cases req <;> simp only [SatisfiedBy, Clauses.Allows, hk]

/-- The whole body: the clause of a kind is what the last directive of that kind says. -/
theorem directives_allow {ds : List Directive}
    (h : ds.foldlM (applyDirective scope lineno) c = .ok c') (hreads : reads scope k = true)
    (hscope : req.scope = scope) :
    c'.Allows k req ↔
      match last key k ds with
      | some e => e.SatisfiedBy lineno req
      | none => c.Allows k req := by
  induction ds generalizing c with
  | nil =>
    cases h
    rfl
  | cons d ds ih =>
    rw [foldlM_cons] at h
    obtain ⟨c₁, hd, h⟩ := of_bind_ok h
    rw [ih h, last]
    cases last key k ds with
    | some e => rfl
    | none =>
      by_cases hk : d.key = k
      · subst hk
        simp only [if_true]
        exact applyDirective_sets hd hreads hscope
      · simp only [hk, if_false]
        exact applyDirective_frame hd hk req

/-! ### Accepted directives -/

theorem foldlM_accepts {β : Type} {f : β → α → Except ε β} {l : List α} {b b' : β}
    (h : l.foldlM f b = .ok b') : ∀ a ∈ l, ∃ x y, f x a = .ok y := by
  induction l generalizing b with
  | nil => exact fun a ha => (by cases ha)
  | cons a l ih =>
    rw [foldlM_cons] at h
    obtain ⟨next, hnext, h⟩ := of_bind_ok h
    intro c hc
    rcases mem_cons.mp hc with rfl | hc
    · exact ⟨b, next, hnext⟩
    · exact ih h c hc

def anyClient : ClientContext := ⟨.v4 0, 0, .v4 0, 0⟩

def anySocks : SocksContext := ⟨.v4 0, 0, none, .v4 0, 0, .connect, .tcp, .noAuth⟩

theorem exists_request (scope : Scope) : ∃ req : Request, req.scope = scope ∧ req.InRange := by
  cases scope with
  | client => exact ⟨.client anyClient, rfl, by decide, by decide⟩
  | socks => exact ⟨.socks anySocks, rfl, by decide, by decide⟩

theorem exists_of_source (hk : d.key = some .source)
    (hspec : parseAddrSpec d.vals lineno false = .ok spec) :
    ∃ req : Request, (req.scope = scope ∧ req.InRange) ∧ d.SatisfiedBy lineno req := by
  obtain ⟨ip, port, hport, hmatch⟩ := parseAddrSpec_inhabited hspec
  cases scope with
  | client =>
    refine ⟨.client { anyClient with clientIp := ip, clientPort := port },
      ⟨rfl, hport, Nat.zero_le _⟩, ?_⟩
    simp only [SatisfiedBy, hk]
    exact ⟨spec, hspec, hmatch⟩
  | socks =>
    refine ⟨.socks { anySocks with clientIp := ip, clientPort := port },
      ⟨rfl, hport, Nat.zero_le _⟩, ?_⟩
    simp only [SatisfiedBy, hk]
    exact ⟨spec, hspec, hmatch⟩

theorem exists_of_dest (hk : d.key = some .dest)
    (hspec : parseAddrSpec d.vals lineno (scope == .socks) = .ok spec) :
    ∃ req : Request, (req.scope = scope ∧ req.InRange) ∧ d.SatisfiedBy lineno req := by
  cases scope with
  | client =>
    have hclient : parseAddrSpec d.vals lineno false = .ok spec := hspec
    obtain ⟨ip, port, hport, hmatch⟩ := parseAddrSpec_inhabited hclient
    refine ⟨.client { anyClient with proxyIp := ip, proxyPort := port },
      ⟨rfl, Nat.zero_le _, hport⟩, ?_⟩
    simp only [SatisfiedBy, hk]
    exact ⟨spec, hclient, hmatch⟩
  | socks =>
    have hsocks : parseAddrSpec d.vals lineno true = .ok spec := hspec
    obtain ⟨host, ip, port, hport, hmatch⟩ := parseAddrSpec_dest_inhabited hsocks
    refine ⟨.socks { anySocks with destHost := host, destIp := ip, destPort := port },
      ⟨rfl, Nat.zero_le _, hport⟩, ?_⟩
    simp only [SatisfiedBy, hk]
    exact ⟨spec, hsocks, hmatch⟩

theorem applyDirective_inhabited (h : applyDirective scope lineno c d = .ok c')
    (hreads : reads scope d.key = true) :
    ∃ req : Request, (req.scope = scope ∧ req.InRange) ∧ d.SatisfiedBy lineno req := by
  obtain ⟨base, hbase⟩ := exists_request scope
  unfold applyDirective at h
  split at h <;> rename_i hk <;> rw [hk] at hreads
  case h_1 =>
    obtain ⟨spec, hspec, -⟩ := of_bind_ok h
    exact exists_of_source hk hspec
  case h_2 =>
    obtain ⟨spec, hspec, -⟩ := of_bind_ok h
    exact exists_of_dest hk hspec
  case h_3 =>
    obtain ⟨out, hout, -⟩ := of_bind_ok h
    obtain ⟨x, hx⟩ := exists_mem_of_ne_nil out (parseWords_ne_nil hout)
    cases scope with
    | client => cases hreads
    | socks =>
      refine ⟨.socks { anySocks with protocol := x }, ⟨rfl, Nat.zero_le _, Nat.zero_le _⟩, ?_⟩
      simp only [SatisfiedBy, hk]
      exact ⟨out, hout, hx⟩
  case h_4 =>
    obtain ⟨out, hout, -⟩ := of_bind_ok h
    obtain ⟨x, hx⟩ := exists_mem_of_ne_nil out (parseWords_ne_nil hout)
    cases scope with
    | client => cases hreads
    | socks =>
      refine ⟨.socks { anySocks with command := x }, ⟨rfl, Nat.zero_le _, Nat.zero_le _⟩, ?_⟩
      simp only [SatisfiedBy, hk]
      exact ⟨out, hout, hx⟩
  case h_5 =>
    obtain ⟨out, hout, -⟩ := of_bind_ok h
    obtain ⟨x, hx⟩ := exists_mem_of_ne_nil out (parseWords_ne_nil hout)
    cases scope with
    | client => cases hreads
    | socks =>
      refine ⟨.socks { anySocks with method := x }, ⟨rfl, Nat.zero_le _, Nat.zero_le _⟩, ?_⟩
      simp only [SatisfiedBy, hk]
      exact ⟨out, hout, hx⟩
  case h_8 => cases h
  all_goals
    refine ⟨base, hbase, ?_⟩
    cases base <;> simp only [SatisfiedBy, hk]

theorem applyDirective_takes (h : applyDirective scope lineno c d = .ok c')
    (hlog : d.key ≠ some .log) : d.Takes scope := by
  unfold applyDirective at h
  split at h <;> rename_i hk <;> simp only [Takes, hk]
  case h_1 | h_2 =>
    obtain ⟨spec, hspec, -⟩ := of_bind_ok h
    exact parseAddrSpec_values hspec
  case h_3 | h_4 | h_5 =>
    obtain ⟨out, hout, -⟩ := of_bind_ok h
    exact parseWords_values hout
  case h_6 =>
    split at h
    · obtain ⟨limit, hlimit, -⟩ := of_bind_ok h
      exact parseByteRateLimit_values hlimit
    · cases h
  case h_7 => exact absurd hk hlog
  case h_8 => cases h

/-! ### The words of the body -/

theorem gatherVals_words (body : List Text) :
    (gatherVals body).1 ++ (gatherVals body).2.flatMap (fun d => d.word :: d.vals) = body := by
  induction body with
  | nil => rfl
  | cons w body ih =>
    rw [gatherVals]
    split
    · rw [flatMap_cons, nil_append, cons_append, ih]
    · rw [cons_append, ih]

/-- The words of a body are those of its directives, in their order. -/
theorem directives_words (body : List Text) :
    (directives body).flatMap (fun d => d.word :: d.vals) = body := by
  cases body with
  | nil => rfl
  | cons => rw [directives, flatMap_cons, cons_append, gatherVals_words]

def blockBody (tokens : List Text) : List Text :=
  match openAt tokens, closeAt tokens with
  | some o, some close => slice tokens (o + 1) close
  | _, _ => []

theorem matchedBy_iff (c : Clauses) (name : Option Text) (verdict : Verdict) (scope : Scope)
    (lineno : ℕ) (req : Request) :
    req.matchedBy ⟨name, verdict, scope, c.source.getD any, c.dest.getD any,
        c.commands, c.protocols, c.methods, c.bandwidth, lineno⟩ = true ↔
      req.scope = scope ∧ ∀ k, c.Allows k req := by
  cases req with
  | client ctx =>
    simp only [matchedBy, Rule.matchesClient, Bool.and_eq_true, beq_iff_eq]
    constructor
    · rintro ⟨⟨rfl, hsource⟩, hdest⟩
      refine ⟨rfl, fun k => ?_⟩
      rcases k with _ | k
      · trivial
      · cases k <;> first | exact hsource | exact hdest | trivial
    · rintro ⟨rfl, hall⟩
      exact ⟨⟨rfl, hall (some .source)⟩, hall (some .dest)⟩
  | socks ctx =>
    simp only [matchedBy, Rule.matchesSocks, Bool.and_eq_true, beq_iff_eq]
    constructor
    · rintro ⟨⟨⟨⟨⟨rfl, hsource⟩, hdest⟩, hcommand⟩, hprotocol⟩, hmethod⟩
      refine ⟨rfl, fun k => ?_⟩
      rcases k with _ | k
      · trivial
      · cases k with
        | source => exact hsource
        | dest => exact hdest
        | protocol => exact hprotocol
        | command => exact hcommand
        | method => exact hmethod
        | bandwidth | log => trivial
    · rintro ⟨rfl, hall⟩
      exact ⟨⟨⟨⟨⟨rfl, hall (some .source)⟩, hall (some .dest)⟩, hall (some .command)⟩,
        hall (some .protocol)⟩, hall (some .method)⟩

variable {tokens : List Text}

theorem parseRule_ok (h : parseRule tokens lineno = .ok rule) :
    ∃ c, (directives (blockBody tokens)).foldlM (applyDirective rule.scope lineno) Clauses.empty =
        .ok c ∧ ∀ req : Request, req.matchedBy rule = true ↔
          req.scope = rule.scope ∧ ∀ k, c.Allows k req := by
  unfold parseRule at h
  obtain ⟨scope, -, h⟩ := of_bind_ok h
  obtain ⟨verdict, -, h⟩ := of_bind_ok h
  cases ho : openAt tokens with
  | none =>
    rw [ho] at h
    cases h
  | some o =>
    cases hclose : closeAt tokens with
    | none =>
      rw [ho, hclose] at h
      cases h
    | some =>
      rw [ho, hclose] at h
      obtain ⟨name, -, h⟩ := of_bind_ok h
      obtain ⟨c, hc, h⟩ := of_bind_ok h
      cases h
      refine ⟨c, ?_, fun req => ?_⟩
      · rw [blockBody, ho, hclose]
        exact hc
      · exact matchedBy_iff c name verdict scope lineno req

/-! ### Blocks -/

theorem Clauses.allows_unread (h : reads req.scope k = false) : c.Allows k req := by
  cases req with
  | client ctx =>
    rcases k with _ | k
    · cases h
    · cases k <;> trivial
  | socks ctx => cases h

/-- The requests a rule matches are those that pass the last directive of each kind the
matcher looks at. -/
theorem matchedBy_iff_passes (h : parseRule tokens lineno = .ok rule) (hrange : req.InRange) :
    req.matchedBy rule = true ↔ (reading rule.scope lineno).dom req ∧
      (reading rule.scope lineno).Passes
        ((directives (blockBody tokens)).filter fun d => reads rule.scope d.key) req := by
  obtain ⟨c, hc, hmatched⟩ := parseRule_ok h
  rw [hmatched]
  constructor
  · rintro ⟨hscope, hall⟩
    refine ⟨⟨hscope, hrange⟩, fun k e he => ?_⟩
    have hk : reads rule.scope k = true := by
      obtain ⟨hmem, hkey⟩ := last_some he
      rw [← hkey]
      exact (mem_filter.mp hmem).2
    have hlast : last key k (directives (blockBody tokens)) = some e := by
      rw [← last_filter hk]
      exact he
    have hallows := (directives_allow hc hk hscope).mp (hall k)
    rw [hlast] at hallows
    exact hallows
  · rintro ⟨⟨hscope, -⟩, hpass⟩
    refine ⟨hscope, fun k => ?_⟩
    cases hk : reads rule.scope k with
    | false =>
      rw [← hscope] at hk
      exact Clauses.allows_unread hk
    | true =>
      rw [directives_allow hc hk hscope]
      cases hlast : last key k (directives (blockBody tokens)) with
      | none => exact Clauses.empty_allows k req
      | some e =>
        refine hpass k e ?_
        rw [← hlast]
        exact last_filter hk _

/-- The rule matches no request that breaks a directive of its block, and every word of the block
is a directive word or a value that its directive takes. -/
structure Faithful (rule : Rule) (lineno : ℕ) (body : List Text) : Prop where
  selects : ∀ req : Request, req.InRange → req.matchedBy rule = true →
    ∀ d ∈ directives body, d.SatisfiedBy lineno req
  spelled : ∀ d ∈ directives body, d.Takes rule.scope

/-- A selector written again is at least as strict the last time; a client block has no `command`
or `method` and its `protocol` lists `tcp`; and no word stands behind `log`. -/
structure Clear (scope : Scope) (lineno : ℕ) (body : List Text) : Prop where
  strict : ∀ d ∈ directives body, ∀ e, last key d.key (directives body) = some e →
    ∀ req : Request, req.scope = scope → req.InRange → e.SatisfiedBy lineno req →
      d.SatisfiedBy lineno req
  client : scope = .client → ∀ d ∈ directives body, d.key ≠ some .command ∧
    d.key ≠ some .method ∧ (d.key = some .protocol → ∃ v ∈ d.vals, toAsciiLowercase v = "tcp".toList)
  log : ∀ d ∈ directives body, d.key = some .log → d.vals = []

theorem spelled_iff (h : parseRule tokens lineno = .ok rule) :
    (∀ d ∈ directives (blockBody tokens), d.Takes rule.scope) ↔
      ∀ d ∈ directives (blockBody tokens), d.key = some .log → d.vals = [] := by
  obtain ⟨c, hc, -⟩ := parseRule_ok h
  refine forall_congr' fun d => forall_congr' fun hd => ?_
  constructor
  · intro htakes hk
    simpa only [Takes, hk] using htakes
  · intro hlog
    by_cases hk : d.key = some .log
    · simp only [Takes, hk]
      exact hlog hk
    · obtain ⟨c₁, c₂, happly⟩ := foldlM_accepts hc d hd
      exact applyDirective_takes happly hk

/-- What a directive that the client matcher does not look at asks of a connection. -/
theorem unread_satisfiedBy_iff {ctx : ClientContext}
    (h : applyDirective .client lineno c d = .ok c') (hunread : reads .client d.key = false) :
    d.SatisfiedBy lineno (.client ctx) ↔ d.key ≠ some .command ∧ d.key ≠ some .method ∧
      (d.key = some .protocol → ∃ v ∈ d.vals, toAsciiLowercase v = "tcp".toList) := by
  unfold applyDirective at h
  split at h <;> rename_i hk <;> rw [hk] at hunread
  case h_3 =>
    obtain ⟨out, hout, -⟩ := of_bind_ok h
    simp only [SatisfiedBy, hk, exists_ok_iff hout, tcp_mem_iff hout]
    simp
  case h_4 | h_5 => simp [SatisfiedBy, hk]
  all_goals cases hunread

theorem matched_satisfies_iff (h : parseRule tokens lineno = .ok rule) :
    (∀ req : Request, req.InRange → req.matchedBy rule = true →
        ∀ d ∈ directives (blockBody tokens), d.SatisfiedBy lineno req) ↔
      (∀ d ∈ directives (blockBody tokens), reads rule.scope d.key = true → ∀ e,
        last key d.key (directives (blockBody tokens)) = some e →
          ∀ req : Request, req.scope = rule.scope → req.InRange → e.SatisfiedBy lineno req →
            d.SatisfiedBy lineno req) ∧
      ∀ d ∈ directives (blockBody tokens), reads rule.scope d.key = false →
        ∀ req : Request, req.scope = rule.scope → d.SatisfiedBy lineno req := by
  obtain ⟨c, hc, -⟩ := parseRule_ok h
  have hinhabited : ∀ d ∈ (directives (blockBody tokens)).filter fun d => reads rule.scope d.key,
      ∃ req, (reading rule.scope lineno).dom req ∧ (reading rule.scope lineno).allows d req := by
    intro d hd
    obtain ⟨hmem, hreads⟩ := mem_filter.mp hd
    obtain ⟨c₁, c₂, happly⟩ := foldlM_accepts hc d hmem
    exact applyDirective_inhabited happly hreads
  have hpasses := (reading rule.scope lineno).passes_all_iff (exists_request rule.scope) hinhabited
  constructor
  · intro hall
    constructor
    · intro d hd hreads e he req hscope hrange
      refine hpasses.mp (fun r hr hpass f hf => ?_) d (mem_filter.mpr ⟨hd, hreads⟩) e ?_ req
        ⟨hscope, hrange⟩
      · exact hall r hr.2 ((matchedBy_iff_passes h hr.2).mpr ⟨hr, hpass⟩) f (mem_filter.mp hf).1
      · exact (last_filter hreads _).trans he
    · intro d hd hunread req hscope
      obtain ⟨r, hdom, hpass⟩ :=
        (reading rule.scope lineno).exists_passes (exists_request rule.scope) hinhabited
      have hsat := hall r hdom.2 ((matchedBy_iff_passes h hdom.2).mpr ⟨hdom, hpass⟩) d hd
      obtain ⟨c₁, c₂, happly⟩ := foldlM_accepts hc d hd
      -- every connection is like the one the rule matches
      cases req with
      | socks ctx =>
        rw [← hscope] at hunread
        cases hunread
      | client ctx =>
        cases r with
        | socks x => exact absurd (hscope.trans hdom.1.symm) nofun
        | client x =>
          rw [← hscope] at happly hunread
          rw [unread_satisfiedBy_iff happly hunread] at hsat ⊢
          exact hsat
  · rintro ⟨hstrict, hunread⟩ req hrange hmatched d hd
    obtain ⟨hdom, hpass⟩ := (matchedBy_iff_passes h hrange).mp hmatched
    cases hreads : reads rule.scope d.key with
    | false => exact hunread d hd hreads req hdom.1
    | true =>
      refine hpasses.mpr (fun f hf e he r hr => ?_) req hdom hpass d (mem_filter.mpr ⟨hd, hreads⟩)
      obtain ⟨hmem, hfreads⟩ := mem_filter.mp hf
      exact hstrict f hmem hfreads e ((last_filter hfreads _).symm.trans he) r hr.1 hr.2

theorem faithful_iff_clear (h : parseRule tokens lineno = .ok rule) :
    Faithful rule lineno (blockBody tokens) ↔ Clear rule.scope lineno (blockBody tokens) := by
  obtain ⟨c, hc, -⟩ := parseRule_ok h
  have hread : ∀ k, reads .client k = true → k ≠ some .command ∧ k ≠ some .method ∧
      k ≠ some .protocol := by
    rintro k hk
    refine ⟨?_, ?_, ?_⟩ <;> rintro rfl <;> cases hk
  constructor
  · intro hf
    obtain ⟨hstrict, hunread⟩ := (matched_satisfies_iff h).mp hf.selects
    refine ⟨?_, ?_, (spelled_iff h).mp hf.spelled⟩
    · intro d hd e he req hscope hrange hsat
      cases hreads : reads rule.scope d.key with
      | false => exact hunread d hd hreads req hscope
      | true => exact hstrict d hd hreads e he req hscope hrange hsat
    · intro hclient d hd
      obtain ⟨c₁, c₂, happly⟩ := foldlM_accepts hc d hd
      have hall := hunread d hd
      rw [hclient] at happly hall
      cases hreads : reads .client d.key with
      | false =>
        exact (unread_satisfiedBy_iff happly hreads).mp (hall hreads (.client anyClient) rfl)
      | true =>
        obtain ⟨hcommand, hmethod, hprotocol⟩ := hread d.key hreads
        exact ⟨hcommand, hmethod, fun hk => absurd hk hprotocol⟩
  · intro hclear
    refine ⟨(matched_satisfies_iff h).mpr ⟨?_, ?_⟩, (spelled_iff h).mpr hclear.log⟩
    · exact fun d hd _ e he => hclear.strict d hd e he
    · intro d hd hunread req hscope
      obtain ⟨c₁, c₂, happly⟩ := foldlM_accepts hc d hd
      rw [← hscope] at happly hunread
      cases req with
      | socks ctx => cases hunread
      | client ctx => exact (unread_satisfiedBy_iff happly hunread).mpr (hclear.client hscope.symm d hd)

theorem blockBody_gathered {lines : List Text} {start next : ℕ}
    (h : gatherBlock lines start = .ok (tokens, next)) :
    ∃ head body, tokens = head ++ ['{'] :: body ++ [['}']] ∧ ['{'] ∉ head ∧
      blockBody tokens = body := by
  obtain ⟨words, rfl, hmem⟩ := gatherBlock_ok h
  obtain ⟨head, body, rfl, hhead⟩ := eq_append_cons_of_mem hmem
  have hopen : openAt (head ++ ['{'] :: body ++ [['}']]) = some head.length := by
    have hnone : head.findIdx? (fun t => decide (t = ['{'])) = none := by
      rw [findIdx?_eq_none_iff]
      intro t ht
      refine decide_eq_false fun heq => hhead ?_
      rw [← heq]
      exact ht
    rw [openAt, append_assoc, findIdx?_append, hnone]
    simp [findIdx?_cons]
  have hclose : closeAt (head ++ ['{'] :: body ++ [['}']]) = some (head ++ ['{'] :: body).length := by
    have hwindow := lastWindow_append (x := ['}']) (p := []) (b := []) (head ++ ['{'] :: body) rfl
    rw [append_nil] at hwindow
    exact hwindow
  refine ⟨head, body, rfl, hhead, ?_⟩
  rw [blockBody, hopen, hclose]
  show slice (head ++ ['{'] :: body ++ [['}']]) (head.length + 1) (head ++ ['{'] :: body).length = body
  rw [slice, take_left, ← singleton_append, ← append_assoc]
  exact drop_left' (by simp)

/-- A block that `parseRule` accepts becomes a rule that does what it says exactly when the block
is clear. The words of the block are those of its directives. -/
theorem rule_block_faithful (tokens : List Text) :
    (∀ lines start next, gatherBlock lines start = .ok (tokens, next) →
      ∃ head body, tokens = head ++ ['{'] :: body ++ [['}']] ∧ ['{'] ∉ head ∧
        blockBody tokens = body) ∧
    ((directives (blockBody tokens)).flatMap fun d => d.word :: d.vals) = blockBody tokens ∧
    ∀ lineno rule, parseRule tokens lineno = .ok rule →
      (Faithful rule lineno (blockBody tokens) ↔ Clear rule.scope lineno (blockBody tokens)) :=
  ⟨fun _ _ _ h => blockBody_gathered h, directives_words _, fun _ _ h => faithful_iff_clear h⟩

theorem clear_of_single {body : List Text} (hlast : ∀ d ∈ directives body,
      last key d.key (directives body) = some d) (hscope : scope ≠ .client)
    (hlog : ∀ d ∈ directives body, d.key ≠ some .log) : Clear scope lineno body := by
  refine ⟨?_, fun hclient => absurd hclient hscope, fun d hd hk => absurd hk (hlog d hd)⟩
  intro d hd e he req _ _ hsat
  rw [hlast d hd] at he
  cases he
  exact hsat

def webLines : List Text :=
  ["socks pass \x7b from: 10.0.0.0/8".toList, "to: .example.com port = 443 # web".toList,
    "protocol: tcp \x7d".toList]

def webTokens : List Text :=
  ["socks".toList, "pass".toList, ['{'], "from:".toList, "10.0.0.0/8".toList, "to:".toList,
    ".example.com".toList, "port".toList, ['='], "443".toList, "protocol:".toList, "tcp".toList,
    ['}']]

def webRule : Rule :=
  ⟨none, .pass, .socks, .new ⟨167772160, 8, false, by decide⟩ none,
    .host (.suffix "example.com".toList) (some ⟨443, 443⟩), [], [.tcp], [], none, 1⟩

theorem rule_block_faithful_web :
    (∃ head body, webTokens = head ++ ['{'] :: body ++ [['}']] ∧ ['{'] ∉ head ∧
      blockBody webTokens = body) ∧ Faithful webRule 1 (blockBody webTokens) := by
  have hgather : gatherBlock webLines 0 = .ok (webTokens, 3) := by rfl
  have hrule : parseRule webTokens 1 = .ok webRule := by rfl
  have hclear : Clear .socks 1 (blockBody webTokens) :=
    clear_of_single (by decide) (by decide) (by decide)
  exact ⟨(rule_block_faithful webTokens).1 webLines 0 3 hgather,
    ((rule_block_faithful webTokens).2.2 1 webRule hrule).mpr hclear⟩

/-- A client rule for `udp` that matches every connection, a destination that the next one
replaces, and a mistyped `command` behind `log`. -/
theorem accepted_not_faithful :
    (∃ tokens rule, gatherBlock ["client pass \x7b protocol: udp \x7d".toList] 0 = .ok (tokens, 1) ∧
      parseRule tokens 1 = .ok rule ∧ rule.matchesClient anyClient = true ∧
      ¬ Faithful rule 1 (blockBody tokens)) ∧
    (∃ tokens rule, gatherBlock ["socks pass \x7b to: 10.0.0.0/8 to: 8.0.0.0/8 \x7d".toList] 0 =
        .ok (tokens, 1) ∧ parseRule tokens 1 = .ok rule ∧
      rule.matchesSocks { anySocks with destIp := .v4 134744072 } = true ∧
      ¬ Faithful rule 1 (blockBody tokens)) ∧
    ∃ tokens rule, gatherBlock ["socks pass \x7b log: connect comand bind \x7d".toList] 0 =
        .ok (tokens, 1) ∧ parseRule tokens 1 = .ok rule ∧
      rule.matchesSocks { anySocks with command := .connect } = true ∧
      "comand".toList ∈ blockBody tokens ∧ bodyKey "comand".toList = none ∧
      ¬ Faithful rule 1 (blockBody tokens) := by
  refine ⟨⟨["client".toList, "pass".toList, ['{'], "protocol:".toList, "udp".toList, ['}']],
      ⟨none, .pass, .client, .any, .any, [], [.udp], [], none, 1⟩, by rfl, by rfl, by decide, ?_⟩,
    ⟨["socks".toList, "pass".toList, ['{'], "to:".toList, "10.0.0.0/8".toList, "to:".toList,
        "8.0.0.0/8".toList, ['}']],
      ⟨none, .pass, .socks, .any, .new ⟨134217728, 8, false, by decide⟩ none, [], [], [], none, 1⟩,
      by rfl, by rfl, by decide, ?_⟩,
    ["socks".toList, "pass".toList, ['{'], "log:".toList, "connect".toList, "comand".toList,
      "bind".toList, ['}']],
    ⟨none, .pass, .socks, .any, .any, [], [], [], none, 1⟩, by rfl, by rfl, by decide, by decide,
    by decide, ?_⟩
  · intro hf
    obtain ⟨out, hout, htcp⟩ := hf.selects (.client anyClient) ⟨by decide, by decide⟩ (by decide)
      ⟨"protocol:".toList, ["udp".toList]⟩ (by decide)
    have hparse : parseProtocols ["udp".toList] 1 = .ok [.udp] := by rfl
    rw [hparse] at hout
    cases hout
    exact absurd htcp (by decide)
  · intro hf
    obtain ⟨spec, hspec, hmatch⟩ := hf.selects (.socks { anySocks with destIp := .v4 134744072 })
      ⟨by decide, by decide⟩ (by decide) ⟨"to:".toList, ["10.0.0.0/8".toList]⟩ (by decide)
    have hparse : parseAddrSpec ["10.0.0.0/8".toList] 1 true =
        .ok (.new ⟨167772160, 8, false, by decide⟩ none) := by rfl
    rw [hparse] at hspec
    cases hspec
    exact absurd hmatch (by decide)
  · intro hf
    have htakes := hf.spelled ⟨"log:".toList, ["connect".toList, "comand".toList, "bind".toList]⟩
      (by decide)
    exact absurd htakes (cons_ne_nil _ _)

end Alighieri.Config
