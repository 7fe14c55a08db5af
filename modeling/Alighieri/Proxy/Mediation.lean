import Alighieri.Proxy.Connection

/-!
# Complete mediation of a connection

Nothing reaches out before the client rule, the method negotiation and the credential check are
behind the handler; what is then dialled are the policy-ordered candidates the rules pass.
-/

namespace Alighieri.Proxy
open Net Socks5 Dns Acl List Script

variable {c : Connection} {w : World} {method : AuthKind} {t : SocketAddr} {a : Action}
  {actions : List Action} {α : Type} {rest : Bytes} {n : ℕ} {request : Request}

/- Everything but the exchange with the client itself. -/
def Action.outbound : Action → Bool
  | .selectMethod _ | .verify _ | .authStatus _ | .reply _ => false
  | _ => true

/-! ### The handshake -/

theorem within_ok {late : Bool} {r : Except Error α} {v : α} (h : (within late r).result = .ok v) :
    r = .ok v := by
  cases late with
  | false => exact h
  | true => cases h

theorem negotiate_ok (h : (negotiate c w).result = .ok (method, rest)) :
    method ∈ c.config.socksMethods ∧ ∃ greeting, readGreeting w.input = .ok (greeting, rest) ∧
      toMethod method ∈ greeting.methods := by
  obtain ⟨⟨greeting, rest'⟩, hread, h⟩ := result_bind_ok h
  have hgreeting := within_ok hread
  simp only at h
  split at h
  · obtain ⟨u, -, h⟩ := result_bind_ok h
    cases h
  · rename_i hm
    obtain ⟨u, -, h⟩ := result_bind_ok h
    cases h
    have hoffered := find?_some hm
    exact ⟨mem_of_find?_eq_some hm, greeting, hgreeting, by simpa using hoffered⟩

abbrev Quiet {α : Type} (x : Script α) : Prop := x.All fun a => a.outbound = false

theorem refuse_quiet (w : World) (code : Reply) (e : Error) : Quiet (w.refuse code e) :=
  .bind (.act _ rfl) fun _ _ => .fail e

theorem negotiate_quiet (c : Connection) (w : World) : Quiet (negotiate c w) := by
  refine .bind (.lift _) ?_
  rintro ⟨greeting, rest⟩ -
  dsimp only
  split
  · exact .bind (.act _ rfl) fun _ _ => .fail _
  · exact .bind (.act _ rfl) fun _ _ => .pure _

theorem authenticate_quiet (w : World) (method : AuthKind) (input : Bytes) :
    Quiet (authenticate w method input) := by
  unfold authenticate
  split
  · refine .bind (.lift _) ?_
    rintro ⟨creds, rest⟩ -
    refine .bind (.act _ rfl) ?_
    intro outcome _
    cases outcome with
    | allowed => exact .bind (.act _ rfl) fun _ _ => .pure _
    | denied | timedOut => exact .bind (.act _ rfl) fun _ _ => .fail _
  · exact .pure _

theorem requestFailed_quiet (w : World) (e : Error) : Quiet (requestFailed w e) := by
  unfold requestFailed
  split
  · exact refuse_quiet w _ _
  · exact .fail _

theorem authenticate_ok {input : Bytes} (h : (authenticate w method input).result = .ok rest)
    (hm : method = .username) :
    ∃ creds, readUserpass input = .ok (creds, rest) ∧
      .verify creds ∈ (authenticate w method input).actions ∧ w.auth creds = .allowed := by
  subst hm
  unfold authenticate at h ⊢
  simp only [toMethod, if_true] at h ⊢
  obtain ⟨⟨creds, rest'⟩, hread, h⟩ := result_bind_ok h
  have hverify : Action.verify creds ∈ (act (.verify creds) (.ok (w.auth creds))).actions :=
    mem_singleton.mpr rfl
  rw [actions_bind_ok hread]
  obtain ⟨outcome, hout, h⟩ := result_bind_ok h
  cases hout
  cases hauth : w.auth creds with
  | allowed =>
    rw [hauth] at h
    obtain ⟨u, -, h⟩ := result_bind_ok h
    cases h
    rw [hauth] at hverify
    exact ⟨creds, within_ok hread, mem_append_right _ (mem_bind_left _ hverify), hauth⟩
  | denied | timedOut =>
    rw [hauth] at h
    obtain ⟨u, -, h⟩ := result_bind_ok h
    cases h

/-- What lies behind a handler that serves a request. `handshake` is what it has
done until then. -/
structure Admitted (c : Connection) (w : World) (method : AuthKind) (request : Request)
    (handshake : List Action) : Prop where
  clientRule : (c.config.rules.evaluateClientDetail c.clientContext).verdict = .pass
  enabled : method ∈ c.config.socksMethods
  offered : ∃ greeting rest, readGreeting w.input = .ok (greeting, rest) ∧
    toMethod method ∈ greeting.methods
  verified : method = .username → ∃ creds, .verify creds ∈ handshake ∧ w.auth creds = .allowed
  requested : ∃ rest rest' tail, (negotiate c w).result = .ok (method, rest) ∧
    (authenticate w method rest).result = .ok rest' ∧ readRequest rest' = .ok (request, tail)
  quiet : ∀ a ∈ handshake, a.outbound = false

theorem handle_cases (c : Connection) (w : World) :
    Quiet (handle c w) ∨ ∃ method request handshake, Admitted c w method request handshake ∧
      (handle c w).actions = handshake ++ (serve c w method request).actions := by
  unfold handle
  split
  · exact .inl (.fail _)
  · rename_i hclient
    have hpass : (c.config.rules.evaluateClientDetail c.clientContext).verdict = .pass := by
      simpa using hclient
    cases hneg : (negotiate c w).result with
    | error e =>
      refine .inl (.bind (negotiate_quiet c w) ?_)
      intro v hv
      rw [hneg] at hv
      cases hv
    | ok chosen =>
      obtain ⟨method, rest⟩ := chosen
      obtain ⟨henabled, greeting, hgreeting, hoffered⟩ := negotiate_ok hneg
      show (∀ a ∈ (negotiate c w >>= _).actions, a.outbound = false) ∨ _
      rw [actions_bind_ok hneg]
      cases hauth : (authenticate w method rest).result with
      | error e =>
        refine .inl ?_
        intro a ha
        rcases mem_append.mp ha with ha | ha
        · exact negotiate_quiet c w a ha
        · refine Script.All.bind (authenticate_quiet w method rest) ?_ a ha
          intro v hv
          rw [hauth] at hv
          cases hv
      | ok rest' =>
        have hquiet : ∀ a ∈ (negotiate c w).actions ++ (authenticate w method rest).actions,
            a.outbound = false := by
          intro a ha
          rcases mem_append.mp ha with ha | ha
          · exact negotiate_quiet c w a ha
          · exact authenticate_quiet w method rest a ha
        show (∀ a ∈ (negotiate c w).actions ++ (authenticate w method rest >>= _).actions, _) ∨ _
        simp only [actions_bind_ok hauth, ← append_assoc]
        cases hreq : (within w.requestLate (readRequest rest')).result with
        | error e =>
          refine .inl ?_
          intro a ha
          rcases mem_append.mp ha with ha | ha
          · exact hquiet a ha
          · exact requestFailed_quiet w e a ha
        | ok found =>
          refine .inr ⟨method, found.1, _, ⟨hpass, henabled, ⟨greeting, rest, hgreeting, hoffered⟩,
            ?_, ⟨rest, rest', found.2, hneg, hauth, within_ok hreq⟩, hquiet⟩, rfl⟩
          intro hm
          obtain ⟨creds, -, hmem, hallowed⟩ := authenticate_ok hauth hm
          exact ⟨creds, mem_append_right _ hmem, hallowed⟩

/-! ### The candidate loop -/

/- An attempt dials the candidate under `name`, or nothing; one that succeeds has
dialled. -/
structure Dials (attempt : ℕ → SocketAddr → Attempt) (name : SocketAddr → SocketAddr) : Prop where
  dial : ∀ n t a, (attempt n t).action = some a → a.dialAddress = some (name t)
  success : ∀ n t, (attempt n t).failure = none → ∃ a, (attempt n t).action = some a

section Candidates

variable {decision : SocketAddr → RuleDecision} {attempt : ℕ → SocketAddr → Attempt}
  {again : ℕ → Bool} {name : SocketAddr → SocketAddr}

theorem Dials.dialled (h : Dials attempt name) (n : ℕ) (t : SocketAddr) :
    (dialled (attempt n t).action.toList).Sublist [name t] := by
  cases ha : (attempt n t).action with
  | none => exact nil_sublist _
  | some a => simp [Proxy.dialled, h.dial n t a ha]

theorem Dials.dialled_success (h : Dials attempt name) (hf : (attempt n t).failure = none) :
    Proxy.dialled (attempt n t).action.toList = [name t] := by
  obtain ⟨a, ha⟩ := h.success n t hf
  simp [Proxy.dialled, ha, h.dial n t a ha]

theorem tryCandidates_actions (h : Dials attempt name) (n : ℕ) (ts : List SocketAddr) :
    ∀ a ∈ (tryCandidates decision attempt again n ts).actions,
      ∃ t ∈ ts, (decision t).verdict = .pass ∧ a.dialAddress = some (name t) := by
  induction ts generalizing n with
  | nil =>
    intro a ha
    cases ha
  | cons t rest ih =>
    intro a ha
    have hlater : a ∈ (tryCandidates decision attempt again (n + 1) rest).actions →
        ∃ u ∈ t :: rest, (decision u).verdict = .pass ∧ a.dialAddress = some (name u) := by
      intro hmem
      obtain ⟨u, hu, hrest⟩ := ih (n + 1) a hmem
      exact ⟨u, mem_cons_of_mem _ hu, hrest⟩
    simp only [tryCandidates] at ha
    split at ha
    · exact hlater ha
    · rename_i hv
      have hnow : a ∈ (attempt n t).action.toList →
          ∃ u ∈ t :: rest, (decision u).verdict = .pass ∧ a.dialAddress = some (name u) := by
        intro hmem
        exact ⟨t, mem_cons_self, by simpa using hv,
          h.dial n t a (Option.mem_toList.mp hmem)⟩
      split at ha
      · exact hnow ha
      · split at ha
        · rcases mem_append.mp ha with ha | ha
          · exact hnow ha
          · exact hlater ha
        · exact hnow ha

theorem tryCandidates_sublist (h : Dials attempt name) (n : ℕ) (ts : List SocketAddr) :
    (dialled (tryCandidates decision attempt again n ts).actions).Sublist (ts.map name) := by
  induction ts generalizing n with
  | nil => exact Sublist.refl _
  | cons t rest ih =>
    have hone : (dialled (attempt n t).action.toList).Sublist (name t :: rest.map name) :=
      (h.dialled n t).trans (Sublist.cons_cons (name t) (nil_sublist _))
    simp only [tryCandidates, map_cons]
    split
    · exact (ih (n + 1)).cons _
    · split
      · exact hone
      · split
        · rw [dialled_append]
          exact (h.dialled n t).append (ih (n + 1))
        · exact hone

theorem tryCandidates_connected (h : Dials attempt name) {ts : List SocketAddr} {d : RuleDecision}
    (hc : (tryCandidates decision attempt again n ts).connected = some (t, d)) :
    t ∈ ts ∧ d = decision t ∧ (decision t).verdict = .pass ∧
      (dialled (tryCandidates decision attempt again n ts).actions).getLast? = some (name t) := by
  induction ts generalizing n with
  | nil => cases hc
  | cons u rest ih =>
    simp only [tryCandidates] at hc ⊢
    split at hc
    · rename_i hv
      rw [if_pos hv]
      obtain ⟨ht, hrest⟩ := ih hc
      exact ⟨mem_cons_of_mem _ ht, hrest⟩
    · rename_i hv
      rw [if_neg hv]
      split at hc
      · rename_i hf
        cases hc
        refine ⟨mem_cons_self, rfl, by simpa using hv, ?_⟩
        simp only [h.dialled_success hf, getLast?_singleton]
      · split at hc
        · rename_i hagain
          obtain ⟨ht, hd, hpass, hlast⟩ := ih hc
          refine ⟨mem_cons_of_mem _ ht, hd, hpass, ?_⟩
          simp only [if_pos hagain, dialled_append]
          rw [getLast?_append, hlast]
          rfl
        · cases hc

end Candidates

/-! ### CONNECT -/

def answers (c : Connection) (w : World) : TargetAddr → List SocketAddr
  | .ip addr => [addr]
  | .domain host port =>
    match c.config.egress with
    | .direct => (w.answer host port).toOption.getD []
    | .rdp => (w.rdp.bind fun rdp => (rdp.resolved host port).toOption).getD []

/- OPEN names the address without flow information. -/
def dialName (c : Connection) : SocketAddr → SocketAddr :=
  match c.config.egress with
  | .direct => id
  | .rdp => canonicalizeAddress

theorem attemptDirect_dials (w : World) : Dials (attemptDirect w) id where
  dial := by
    intro n t a ha
    cases ha
    rfl
  success := fun n t _ => ⟨_, rfl⟩

theorem attemptRdp_dials (rdp : RdpWorld) (resolution : Option (List SocketAddr)) :
    Dials (attemptRdp rdp resolution) canonicalizeAddress where
  dial := by
    intro n t a ha
    simp only [attemptRdp] at ha
    split at ha
    · cases ha
      rfl
    · cases ha
  success := by
    intro n t hf
    simp only [attemptRdp] at hf ⊢
    split at hf
    · rename_i hin
      rw [if_pos hin]
      exact ⟨_, rfl⟩
    · cases hf

theorem handleConnect_cases (c : Connection) (w : World) (request : Request) (method : AuthKind) :
    Quiet (handleConnect c w request method) ∨ ∃ attempt again, Dials attempt (dialName c) ∧
      handleConnect c w request method = finishConnect c w
        (tryCandidates (c.authorizeConnectTarget method request.dest.host) attempt again 0
          (candidates c.config.dns (applyPolicy (answers c w request.dest) c.config.dns))) := by
  unfold handleConnect
  cases he : c.config.egress with
  | direct =>
    simp only [handleConnectDirect, dialName, he]
    split
    · exact .inl (refuse_quiet w _ _)
    · exact .inl (refuse_quiet w _ _)
    · rename_i targets hne hres
      refine .inr ⟨attemptDirect w, fun _ => c.config.dns.tryAll, attemptDirect_dials w, ?_⟩
      have htargets : targets = applyPolicy (answers c w request.dest) c.config.dns := by
        cases hd : request.dest with
        | ip =>
          simp only [hd, resolveAll, Except.ok.injEq] at hres
          exact hres.symm
        | domain host port =>
          simp only [hd, resolveAll, TargetAddr.host, TargetAddr.port, Option.getD_some] at hres
          cases ha : w.answer host port with
          | error e => simp [ha, Except.map] at hres
          | ok =>
            simp only [ha, Except.map, Except.ok.injEq] at hres
            simp only [answers, he, ha, Except.toOption, Option.getD_some, hres]
      rw [htargets]
  | rdp =>
    simp only [dialName, he]
    split
    · cases hr : w.rdp with
      | none => exact .inl (refuse_quiet w _ _)
      | some rdp =>
        simp only [handleConnectRdp]
        split
        · exact .inl (refuse_quiet w _ _)
        · exact .inl (refuse_quiet w _ _)
        · rename_i resolution targets hne hres
          refine .inr ⟨attemptRdp rdp resolution, fun n => c.config.dns.tryAll && rdp.retry n,
            attemptRdp_dials rdp resolution, ?_⟩
          have htargets : targets = applyPolicy (answers c w request.dest) c.config.dns := by
            cases hd : request.dest with
            | ip =>
              simp only [hd, resolveRdp, Except.ok.injEq, Prod.mk.injEq] at hres
              exact hres.2.symm
            | domain host port =>
              simp only [hd, resolveRdp] at hres
              cases ha : rdp.resolved host port with
              | error e => simp [ha, Except.map] at hres
              | ok =>
                simp only [ha, Except.map, Except.ok.injEq, Prod.mk.injEq] at hres
                simp only [answers, he, hr, ha, Except.toOption, Option.bind_some,
                  Option.getD_some, hres.2]
          rw [htargets]
    · exact .inl (refuse_quiet w _ _)

theorem finishConnect_relay {t : Tried} {target : SocketAddr} {throttle : List Bucket}
    (h : .relay target throttle ∈ (finishConnect c w t).actions) :
    .relay target throttle ∈ t.actions ∨
      ∃ d, t.connected = some (target, d) ∧ throttle = c.throttle d.bandwidth := by
  simp only [finishConnect, actions_bind, mem_append] at h
  rcases h with h | h
  · exact .inl h
  · cases hc : t.connected with
    | some found =>
      cases hw : w.replyWritten <;> cases hf : w.flowAllowed <;>
        simp [hc, hw, hf, actions_bind, act] at h
      obtain ⟨rfl, rfl⟩ := h
      exact .inr ⟨found.2, rfl, rfl⟩
    | none =>
      have hrefused : ∀ code e, Action.relay target throttle ∉ (w.refuse code e).actions := by
        intro code e hmem
        cases refuse_quiet w code e _ hmem
      cases hl : t.lastError with
      | none | some e => exact absurd (by simpa only [hc, hl] using h) (hrefused _ _)

/-- The dialling done for a request: in the order of the policy, each address allowed and passed
by the rules, and a relay only to the address dialled last, under the limits of its own rule. -/
structure Mediated (c : Connection) (w : World) (method : AuthKind) (request : Request)
    (actions : List Action) : Prop where
  order : (dialled actions).Sublist
    ((candidates c.config.dns (applyPolicy (answers c w request.dest) c.config.dns)).map
      (dialName c))
  passed : ∀ addr ∈ dialled actions, addressAllowed addr.ip c.config.dns = true ∧
    (c.authorizeConnectTarget method request.dest.host addr).verdict = .pass
  shaped : ∀ target throttle, .relay target throttle ∈ actions →
    (dialled actions).getLast? = some (dialName c target) ∧
      throttle = c.throttle
        (c.authorizeConnectTarget method request.dest.host (dialName c target)).bandwidth

def Action.tcp : Action → Bool
  | .connect _ | .openFrame _ | .relay _ _ => true
  | _ => false

theorem Action.tcp_of_dialAddress {addr : SocketAddr} (h : a.dialAddress = some addr) :
    a.tcp = true := by
  cases a <;> first | rfl | cases h

theorem Action.tcp_eq_false (h : a.outbound = false) : a.tcp = false := by
  cases a <;> first | rfl | cases h

theorem dialled_eq_nil (h : ∀ a ∈ actions, a.tcp = false) : dialled actions = [] := by
  refine filterMap_eq_nil_iff.mpr ?_
  intro a ha
  cases hd : a.dialAddress with
  | none => rfl
  | some =>
    have htcp := Action.tcp_of_dialAddress hd
    rw [h a ha] at htcp
    cases htcp

theorem Mediated.of_tcp_false (h : ∀ a ∈ actions, a.tcp = false) :
    Mediated c w method request actions := by
  refine ⟨?_, ?_, ?_⟩
  · rw [dialled_eq_nil h]
    exact nil_sublist _
  · rw [dialled_eq_nil h]
    exact fun _ hmem => nomatch hmem
  · intro target throttle hmem
    cases h _ hmem

theorem Mediated.append_quiet {handshake : List Action} (hq : ∀ a ∈ handshake, a.outbound = false)
    (h : Mediated c w method request actions) :
    Mediated c w method request (handshake ++ actions) := by
  have hnone : dialled handshake = [] :=
    dialled_eq_nil fun a ha => Action.tcp_eq_false (hq a ha)
  have hsame : dialled (handshake ++ actions) = dialled actions := by
    rw [dialled_append, hnone, nil_append]
  refine ⟨by rw [hsame]; exact h.order, by rw [hsame]; exact h.passed, ?_⟩
  intro target throttle hmem
  rw [hsame]
  rcases mem_append.mp hmem with hmem | hmem
  · cases hq _ hmem
  · exact h.shaped target throttle hmem

theorem mem_of_mem_candidates {policy : DnsPolicy} {targets : List SocketAddr}
    (h : t ∈ candidates policy targets) : t ∈ targets := by
  unfold candidates at h
  split at h
  · exact h
  · exact mem_of_mem_take h

theorem dialName_port (c : Connection) (t : SocketAddr) : (dialName c t).port = t.port := by
  cases he : c.config.egress with
  | direct => simp only [dialName, he, id_eq]
  | rdp => simp only [dialName, he, canonicalizeAddress_port]

theorem dialName_ip (h : canonicalIp t.ip = t.ip) : (dialName c t).ip = t.ip := by
  cases he : c.config.egress with
  | direct => simp only [dialName, he, id_eq]
  | rdp => simp only [dialName, he, canonicalizeAddress_ip, h]

theorem authorize_dialName (method : AuthKind) (host : Option Text) (h : canonicalIp t.ip = t.ip) :
    c.authorizeConnectTarget method host (dialName c t) =
      c.authorizeConnectTarget method host t := by
  simp only [Connection.authorizeConnectTarget, Connection.connectContext, dialName_ip h,
    dialName_port]

theorem handleConnect_mediated (c : Connection) (w : World) (request : Request)
    (method : AuthKind) :
    Mediated c w method request (handleConnect c w request method).actions := by
  rcases handleConnect_cases c w request method with hquiet | ⟨attempt, again, hdials, heq⟩
  · exact .of_tcp_false fun a ha => Action.tcp_eq_false (hquiet a ha)
  · rw [heq]
    have hcandidate : ∀ t ∈ candidates c.config.dns (applyPolicy (answers c w request.dest)
        c.config.dns), canonicalIp t.ip = t.ip ∧ addressAllowed t.ip c.config.dns = true :=
      fun t ht => allowed_of_mem_applyPolicy (mem_of_mem_candidates ht)
    refine ⟨?_, ?_, ?_⟩
    · rw [dialled_finishConnect]
      exact tryCandidates_sublist hdials 0 _
    · rw [dialled_finishConnect]
      intro addr haddr
      obtain ⟨a, ha, hdial⟩ := mem_filterMap.mp haddr
      obtain ⟨t, ht, hpass, hname⟩ := tryCandidates_actions hdials 0 _ a ha
      obtain ⟨hcanon, hallowed⟩ := hcandidate t ht
      rw [hdial] at hname
      cases hname
      rw [dialName_ip hcanon, authorize_dialName method _ hcanon]
      exact ⟨hallowed, hpass⟩
    · intro target throttle hmem
      rw [dialled_finishConnect]
      rcases finishConnect_relay hmem with hloop | ⟨d, hconn, hthrottle⟩
      · obtain ⟨t, -, -, hname⟩ := tryCandidates_actions hdials 0 _ _ hloop
        cases hname
      · obtain ⟨ht, hd, -, hlast⟩ := tryCandidates_connected hdials hconn
        rw [authorize_dialName method _ (hcandidate target ht).1, ← hd]
        exact ⟨hlast, hthrottle⟩

/-! ### UDP ASSOCIATE -/

theorem bound_tcp (w : World) (r : Except Error α) (h : a.tcp = false) :
    (bound w a r).All fun b => b.tcp = false := by
  unfold bound
  split
  · exact .act _ h
  · exact .bind (.act _ h) fun _ _ => .bind (.act _ rfl) fun _ _ => .fail _

theorem handleUdpAssociate_tcp (c : Connection) (w : World) (request : Request)
    (method : AuthKind) :
    (handleUdpAssociate c w request method).All fun a => a.tcp = false := by
  have hrefuse : ∀ code e, (w.refuse code e).All fun a => a.tcp = false :=
    fun code e a ha => Action.tcp_eq_false (refuse_quiet w code e a ha)
  unfold handleUdpAssociate
  split
  · exact hrefuse _ _
  · split
    · exact hrefuse _ _
    · split
      · exact hrefuse _ _
      · exact .bind (bound_tcp w _ rfl) fun _ _ => .bind (bound_tcp w _ rfl) fun _ _ =>
          .bind (.act _ rfl) fun _ _ => .act _ rfl

theorem serve_mediated (c : Connection) (w : World) (method : AuthKind) (request : Request) :
    Mediated c w method request (serve c w method request).actions := by
  unfold serve
  split
  · exact handleConnect_mediated c w request method
  · exact .of_tcp_false (handleUdpAssociate_tcp c w request method)
  · exact .of_tcp_false fun a ha => Action.tcp_eq_false (refuse_quiet w _ _ a ha)

/-- A handler that reaches out at all has been admitted, and everything it dials for the request
it read is mediated by the policy and by the rules. -/
theorem outbound_mediated (c : Connection) (w : World) (a : Action)
    (ha : a ∈ (handle c w).actions) (hout : a.outbound = true) :
    ∃ method request handshake later, (handle c w).actions = handshake ++ later ∧
      Admitted c w method request handshake ∧ a ∈ later ∧
      Mediated c w method request (handle c w).actions := by
  rcases handle_cases c w with hquiet | ⟨method, request, handshake, hadmitted, hactions⟩
  · rw [hquiet a ha] at hout
    cases hout
  · refine ⟨method, request, handshake, _, hactions, hadmitted, ?_, ?_⟩
    · rw [hactions] at ha
      rcases mem_append.mp ha with ha | ha
      · rw [hadmitted.quiet a ha] at hout
        cases hout
      · exact ha
    · rw [hactions]
      exact (serve_mediated c w method request).append_quiet hadmitted.quiet

def passAll : RuleSet :=
  ⟨[⟨none, .pass, .client, .any, .any, [], [], [], none, 1⟩,
    ⟨none, .pass, .socks, .any, .any, [], [], [], none, 2⟩]⟩

def openProxy : Connection :=
  ⟨⟨.direct, [.noAuth], passAll, ⟨.system, false, []⟩, false⟩, .v4 0x0a000001 4000,
    .v4 0x0a0000fe 1080, false⟩

def plainWorld : World where
  input := [5, 1, 0, 5, 1, 0, 1, 192, 0, 2, 1, 0, 80]
  greetingLate := false
  userpassLate := false
  requestLate := false
  methodWritten := .ok ()
  statusWritten := .ok ()
  replyWritten := .ok ()
  auth := fun _ => .denied
  answer := fun _ _ => .ok []
  connected := fun _ target => .ok target
  hasRdp := false
  rdp := none
  flowAllowed := true
  relayBound := .ok (.v4 0 0)
  outboundBound := .ok false

theorem plainWorld_relays : (handle openProxy plainWorld).actions[3]? =
    some (.relay (.v4 0xc0000201 80) []) := by
  rfl

theorem outbound_mediated_plain :
    ∃ method request handshake later,
      (handle openProxy plainWorld).actions = handshake ++ later ∧
        Admitted openProxy plainWorld method request handshake ∧
        .relay (.v4 0xc0000201 80) [] ∈ later ∧
        Mediated openProxy plainWorld method request (handle openProxy plainWorld).actions :=
  outbound_mediated openProxy plainWorld _ (mem_of_getElem? plainWorld_relays) rfl

end Alighieri.Proxy
