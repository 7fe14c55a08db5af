import Alighieri.Rdp.AgentBook

/-!
# Where the agent may connect to

The history of the operations the agent has started against the history of what it has sent.
Candidates enter a stream's state when RESOLVE_OK is queued, in canonical form, and are carried
through `Opening` and back.
-/

namespace Alighieri.Rdp
open Net Lts List Table

variable {policy : AgentPolicy} {a a' : Agent} {id : ℕ} {r : AgentHandled}
  {limits : NegotiatedLimits} {caps : Caps} {await : Await} {ep : Endpoint AgentStreamState}
  {op : Operation} {st : AgentStreamState}

/-- What the agent's histories and stream states say about each other. -/
structure AgentTrail (policy : AgentPolicy) (a : Agent) : Prop where
  recorded : ∀ op ∈ a.started, op.id ∈ a.created
  permitted : ∀ op ∈ a.started, op.Permitted policy
  offered : ∀ id address, .connect id address ∈ a.started →
    ∀ hostname port, .resolve id hostname port ∈ a.started →
      ∃ candidates, .resolveOk id candidates ∈ a.ep.log ∧ address ∈ candidates
  held : ∀ id st candidates, a.ep.streams.lookup id = some st → st.candidates = some candidates →
    .resolveOk id candidates ∈ a.ep.log
  pending : ∀ id candidates, a.ep.await.next = .resolved id candidates →
    a.ep.await = .ordered (.resolveOk id candidates) (.resolved id candidates)

theorem AgentTrail.start (policy : AgentPolicy) : AgentTrail policy Agent.start := by
  refine ⟨?_, ?_, ?_, ?_, ?_⟩ <;> simp [Agent.start, Endpoint.start, Await.next]

theorem Await.pending_of_done (h : await.next = .done) (id : ℕ) (candidates : List SocketAddr)
    (hn : await.next = .resolved id candidates) :
    await = .ordered (.resolveOk id candidates) (.resolved id candidates) := by
  rw [h] at hn
  cases hn

section
variable (ht : AgentTrail policy a)
include ht

theorem AgentTrail.carry (id : ℕ) (st' : Option AgentStreamState)
    (hs : ∀ i, i ≠ id → a'.ep.streams.lookup i = a.ep.streams.lookup i)
    (hself : a'.ep.streams.lookup id = st')
    (hnew : ∀ st c, st' = some st → st.candidates = some c →
      (∃ old, a.ep.streams.lookup id = some old ∧ old.candidates = some c) ∨
        .resolveOk id c ∈ a'.ep.log) (hlog : ∀ f ∈ a.ep.log, f ∈ a'.ep.log)
    (hp : ∀ i c, a'.ep.await.next = .resolved i c →
      a'.ep.await = .ordered (.resolveOk i c) (.resolved i c)) (hst : a'.started = a.started)
    (hcr : a'.created = a.created) : AgentTrail policy a' := by
  refine ⟨?_, ?_, ?_, ?_, hp⟩
  · rw [hst, hcr]
    exact ht.recorded
  · rw [hst]
    exact ht.permitted
  · intro i address hc hostname port hr
    rw [hst] at hc hr
    obtain ⟨c, hmem, hin⟩ := ht.offered i address hc hostname port hr
    exact ⟨c, hlog _ hmem, hin⟩
  · intro i st c hl hc
    by_cases hi : i = id
    · subst hi
      rw [hself] at hl
      rcases hnew st c hl hc with ⟨old, ho, hoc⟩ | hmem
      · exact hlog _ (ht.held i old c ho hoc)
      · exact hmem
    · rw [hs i hi] at hl
      exact hlog _ (ht.held i st c hl hc)

theorem AgentTrail.ep_quiet (hs : ep.streams = a.ep.streams) (hlog : ∀ f ∈ a.ep.log, f ∈ ep.log)
    (hp : ep.await = a.ep.await ∨ ep.await.next = .done ∨ ∃ nonce, ep.await.next = .ping nonce) :
    AgentTrail policy { a with ep := ep } := by
  refine ht.carry 0 (a.ep.streams.lookup 0) (fun i _ => by rw [hs]) (by rw [hs]) ?_ hlog ?_ rfl rfl
  · intro st c hst hc
    exact .inl ⟨st, hst, hc⟩
  · intro i c hn
    rcases hp with he | hd | ⟨nonce, hd⟩
    · simp only [he] at hn ⊢
      exact ht.pending i c hn
    · exact Await.pending_of_done hd i c hn
    · simp only [hd] at hn
      cases hn

theorem AgentTrail.settle_quiet (hnext : r.await.next = .done) (hsp : r.spawned = none)
    (hcr : r.created = false)
    (hst : r.entry.state = a.ep.streams.lookup id ∨
      ∀ st, r.entry.state = some st → st.candidates = none) :
    AgentTrail policy (a.settle id (.ok r)) := by
  refine ht.carry id r.entry.state (fun i hi => lookup_set_of_ne hi)
    (lookup_set_self _ _ _) ?_ (fun f hf => hf) (Await.pending_of_done hnext) ?_ ?_
  · intro st c hs hc
    rcases hst with hsame | hbare
    · rw [hsame] at hs
      exact .inl ⟨st, hs, hc⟩
    · rw [hbare st hs] at hc
      cases hc
  · simp [Agent.settle, hsp]
  · simp [Agent.settle, hcr]

/- A frame starts the operation `op` for its stream. -/
theorem AgentTrail.settle_started (hmem : op.id ∈ (a.settle id (.ok r)).created)
    (hcr : ∀ i ∈ a.created, i ∈ (a.settle id (.ok r)).created) (hstate : r.entry.state = some st)
    (hawait : r.await = .idle) (hsp : r.spawned = some op) (hperm : op.Permitted policy)
    (hoffered : ∀ i address, .connect i address ∈ a.started ++ [op] →
      ∀ hostname port, .resolve i hostname port ∈ a.started ++ [op] →
        ∃ candidates, .resolveOk i candidates ∈ a.ep.log ∧ address ∈ candidates)
    (hheld : ∀ c, st.candidates = some c → .resolveOk id c ∈ a.ep.log) :
    AgentTrail policy (a.settle id (.ok r)) := by
  have hstarted : (a.settle id (.ok r)).started = a.started ++ [op] := by
    simp [Agent.settle, hsp]
  refine ⟨?_, ?_, ?_, ?_, ?_⟩
  · intro o ho
    rw [hstarted] at ho
    rcases mem_append.mp ho with hold | hlast
    · exact hcr _ (ht.recorded o hold)
    · rw [mem_singleton.mp hlast]
      exact hmem
  · intro o ho
    rw [hstarted] at ho
    rcases mem_append.mp ho with hold | hlast
    · exact ht.permitted o hold
    · rw [mem_singleton.mp hlast]
      exact hperm
  · rw [hstarted]
    exact hoffered
  · intro i s c hl hc
    simp only [Agent.settle, Endpoint.setEntry, lookup_set] at hl
    split at hl
    · rename_i hi
      rw [hstate] at hl
      cases hl
      exact hi ▸ hheld c hc
    · exact ht.held i s c hl hc
  · apply Await.pending_of_done
    simp only [Agent.settle, hawait]
    rfl

theorem AgentTrail.settle_create (hb : AgentBook limits a) (hfresh : a.highest < op.id)
    (hstate : r.entry.state = some st) (hawait : r.await = .idle) (hsp : r.spawned = some op)
    (hcr : r.created = true) (hperm : op.Permitted policy) (hbare : st.candidates = none) :
    AgentTrail policy (a.settle op.id (.ok r)) := by
  have hnew : op.id ∉ a.created := by
    intro hmem
    have := hb.bounded _ hmem
    omega
  have hcreated : (a.settle op.id (.ok r)).created = a.created ++ [op.id] := by
    simp [Agent.settle, hcr]
  have hother : ∀ o ∈ a.started, o.id ≠ op.id := fun o ho he => hnew (he ▸ ht.recorded o ho)
  refine ht.settle_started ?_ ?_ hstate hawait hsp hperm ?_ ?_
  · rw [hcreated]
    exact mem_append_right _ (mem_singleton_self _)
  · rw [hcreated]
    exact fun _ => mem_append_left _
  · intro i address hc hostname port hr
    rcases mem_append.mp hc with hc | hc <;> rcases mem_append.mp hr with hr | hr
    · exact ht.offered i address hc hostname port hr
    · -- the same identifier would have been used twice
      exact absurd (by rw [← mem_singleton.mp hr]; rfl) (hother _ hc)
    · exact absurd (by rw [← mem_singleton.mp hc]; rfl) (hother _ hr)
    · rw [← mem_singleton.mp hc] at hr
      simp at hr
  · intro c hc
    rw [hbare] at hc
    cases hc

theorem AgentTrail.settle_connect {address : SocketAddr} {candidates : List SocketAddr}
    (hb : AgentBook limits a) (hres : a.ep.streams.lookup id = some (.resolved candidates))
    (hmem : address ∈ candidates) (hstate : r.entry.state = some (.opening (some candidates)))
    (hawait : r.await = .idle) (hsp : r.spawned = some (.connect id address))
    (hcr : r.created = false) (hperm : (Operation.connect id address).Permitted policy) :
    AgentTrail policy (a.settle id (.ok r)) := by
  have hsent : .resolveOk id candidates ∈ a.ep.log := ht.held id _ candidates hres rfl
  have hcreated : (a.settle id (.ok r)).created = a.created := by
    simp [Agent.settle, hcr]
  refine ht.settle_started ?_ ?_ hstate hawait hsp hperm ?_ ?_
  · rw [hcreated]
    exact hb.recorded id (by rw [hres]; rfl)
  · rw [hcreated]
    exact fun _ hi => hi
  · intro i ad hc hostname port hr
    have hr' : .resolve i hostname port ∈ a.started := by simpa using hr
    rcases mem_append.mp hc with hc | hc
    · exact ht.offered i ad hc hostname port hr'
    · cases mem_singleton.mp hc
      exact ⟨candidates, hsent, hmem⟩
  · rintro c ⟨⟩
    exact hsent

theorem AgentTrail.settle (hb : AgentBook limits a)
    (hc : AgentChange (a.view limits policy) (a.ep.entry id) id r) :
    AgentTrail policy (a.settle id (.ok r)) := by
  cases hc with
  | keep state next spawned created highest =>
    exact ht.settle_quiet next spawned created (.inl state)
  | create op st absent fresh notFull notBusy state await spawned created highest opId fits
      working permitted bare =>
    subst opId
    exact ht.settle_create hb fresh state await spawned created permitted bare
  | connect address candidates resolved mem notBusy state await spawned created highest permitted =>
    exact ht.settle_connect hb resolved mem state await spawned created permitted
  | cancel st state running cancelled next spawned created highest =>
    refine ht.settle_quiet next spawned created (.inr ?_)
    intro s hs
    rw [cancelled] at hs
    cases hs
    rfl
  | retire st state resting gone next spawned created highest =>
    refine ht.settle_quiet next spawned created (.inr ?_)
    intro s hs
    rw [gone] at hs
    cases hs

end

theorem FinishCase.trail {x x' : Entry AgentStreamState} {done : AgentOperation}
    (h : FinishCase x x' await done) :
    (∀ st c, x'.state = some st → st.candidates = some c →
      ∃ old, x.state = some old ∧ old.candidates = some c) ∧
    (∀ i c, await.next = .resolved i c → await = .ordered (.resolveOk i c) (.resolved i c)) := by
  cases h with
  | gone | unresolved => exact ⟨nofun, Await.pending_of_done rfl⟩
  | resolved =>
    refine ⟨nofun, ?_⟩
    rintro i c ⟨⟩
    rfl
  | opened => exact ⟨nofun, nofun⟩
  | unopened code diagnostic hx =>
    refine ⟨?_, Await.pending_of_done rfl⟩
    intro st c hs hc
    obtain ⟨cs, rfl, rfl⟩ := Option.map_eq_some_iff.mp hs
    exact ⟨_, hx, hc⟩

theorem AgentTrail.kept (ht : AgentTrail policy a) (hk : a.ep.Kept ep) :
    AgentTrail policy { a with ep := ep } :=
  ht.ep_quiet hk.streams (fun _ hf => hk.log hf) (hk.await.imp_right And.right)

theorem AgentTrail.event {rest : List WorkerEvent} (ht : AgentTrail policy a) (w : WorkerEvent) :
    AgentTrail policy { a with ep :=
      { a.ep.setEntry w.id (agentWorkerEvent (a.ep.entry w.id) w) with events := rest } } := by
  refine ht.carry w.id (agentWorkerEvent (a.ep.entry w.id) w).state
    (fun j hj => lookup_set_of_ne hj) (lookup_set_self _ _ _) ?_ (fun f hf => hf)
    ht.pending rfl rfl
  intro st c hs hc
  by_cases hst : (a.ep.entry w.id).state = some .opened
  · rcases agentWorkerEvent_opened w hst with hn | hn
    · rw [hn] at hs
      cases hs
    · rw [hn] at hs
      cases hs
      cases hc
  · rw [agentWorkerEvent_other w hst] at hs
    exact .inl ⟨st, hs, hc⟩

theorem AgentTrail.step {act : AgentAct} (ht : AgentTrail policy a) (hb : AgentBook limits a)
    (h : a.step limits policy caps act = some a') : AgentTrail policy a' := by
  cases Agent.step_cases h with
  | turn hturn => exact ht.kept hturn.kept
  | frame hready hf hping hpong =>
    rename_i f rest
    have hpop : AgentTrail policy { a with ep := { a.ep with frames := rest } } :=
      ht.ep_quiet rfl (fun _ hg => hg) (.inl rfl)
    have hbpop : AgentBook limits { a with ep := { a.ep with frames := rest } } :=
      hb.ep_quiet rfl rfl rfl
    cases hr : handleAgentFrame (a.view limits policy) (a.ep.entry f.streamId) f with
    | ok r => exact hpop.settle hbpop (handleAgentFrame_change hr)
    | error e => exact hpop.ep_quiet rfl (fun _ hg => hg) (.inl rfl)
  | event => exact ht.event _
  | finish hready hop hd hok =>
    obtain ⟨hstate, hpending⟩ := (finishAgentOperation_case hok).trail
    exact ht.carry _ _ (fun j hj => lookup_set_of_ne hj) (lookup_set_self _ _ _)
      (fun st c hs hc => .inl (hstate st c hs hc)) (fun f hf => hf) hpending rfl rfl
  | finishError =>
    exact ht.carry 0 (a.ep.streams.lookup 0) (fun j _ => rfl) rfl
      (fun st c hs hc => .inl ⟨st, hs, hc⟩) (fun f hf => hf) ht.pending rfl rfl
  | joinRelay => exact { ht with }
  | resolved hr =>
    -- RESOLVE_OK is in the log before its candidates are in a state
    rename_i id addresses
    have ha := ht.pending id addresses (Endpoint.resume_next hr)
    obtain ⟨-, rfl⟩ := Endpoint.resume_ordered ha hr
    refine ht.carry id (some (.resolved addresses)) (fun j hj => lookup_set_of_ne hj)
      (lookup_set_self _ _ _) ?_ (fun g hg => mem_append_left _ hg)
      (Await.pending_of_done rfl) rfl rfl
    intro st c hs hc
    cases hs
    cases hc
    exact .inr (mem_append_right _ (mem_singleton_self _))
  | opened hr =>
    rename_i ep id
    have hbare : ∀ st c, some AgentStreamState.opened = some st → st.candidates = some c →
        ∃ old, a.ep.streams.lookup id = some old ∧ old.candidates = some c := by
      intro st c hs hc
      cases hs
      cases hc
    have hlog : ∀ g ∈ a.ep.log, g ∈ ep.log := by
      cases (Endpoint.resume_cases hr).2 with
      | ordered ha => exact fun g hg => mem_append_left _ hg
      | control ha => exact fun _ hg => hg
    cases (Endpoint.resume_cases hr).2 with
    | ordered | control =>
      exact ht.carry id (some .opened) (fun j hj => lookup_set_of_ne hj)
        (lookup_set_self _ _ _) (fun st c hs hc => .inl (hbare st c hs hc)) hlog
        (Await.pending_of_done rfl) rfl rfl

theorem AgentTrail.meet {act : PeerAct AgentAct} (ht : AgentTrail policy a)
    (hb : AgentBook limits a) (h : a.meet limits policy caps act = some a') :
    AgentTrail policy a' := by
  cases act with
  | arrive f =>
    obtain ⟨-, -, rfl⟩ := Endpoint.arrive_put h
    exact ht.ep_quiet rfl (fun _ hg => hg) (.inl rfl)
  | depart =>
    cases Endpoint.depart_put h
    exact ht.ep_quiet rfl (fun _ hg => hg) (.inl rfl)
  | own act => exact ht.step hb h

theorem AgentTrail.reachable (h : Reachable (Agent.meet limits policy caps) Agent.start a) :
    AgentTrail policy a := by
  have hboth : AgentBook limits a ∧ AgentTrail policy a := by
    refine h.invariant (P := fun a => AgentBook limits a ∧ AgentTrail policy a)
      ⟨AgentBook.start limits, AgentTrail.start policy⟩ ?_
    intro s act t hs hstep
    exact ⟨hs.1.meet hstep, hs.2.meet hs.1 hstep⟩
  exact hboth.2

/-- Every connect the agent has started: its address passes the policy in canonical form, and a
stream that has resolved connects only to what its own RESOLVE_OK had named. -/
theorem agent_connects_where_permitted (limits : NegotiatedLimits) (policy : AgentPolicy)
    (caps : Caps) {a : Agent} (h : Reachable (Agent.meet limits policy caps) Agent.start a)
    {id : ℕ} {address : SocketAddr} (hc : .connect id address ∈ a.started) :
    agentAddressAllowed policy (canonicalizeAddress address).ip = true ∧
    ∀ hostname port, .resolve id hostname port ∈ a.started →
      ∃ candidates, .resolveOk id candidates ∈ a.ep.log ∧ address ∈ candidates := by
  have ht := AgentTrail.reachable h
  obtain ⟨hcan, hallow⟩ : canonicalizeAddress address = address ∧
      agentAddressAllowed policy address.ip = true := ht.permitted _ hc
  refine ⟨?_, ?_⟩
  · rw [hcan]
    exact hallow
  · intro hostname port hr
    exact ht.offered id address hc hostname port hr

theorem agent_connects_where_permitted_mapped :
    let policy : AgentPolicy := ⟨true, true, true⟩
    let labels : List (PeerAct AgentAct) :=
      [.arrive (.resolve 1 80 ['a']), .own .deliver, .own .frame,
        .own (.finish 0 (.lookup (.ok [.v6 0xffff08080808 0 0 0]))), .own .resume,
        .arrive (.openTo 1 (.v6 0xffff08080808 80 0 0)), .own .deliver, .own .frame]
    ∃ a, Lts.exec (Agent.meet oneStream policy smallCaps) Agent.start labels = some a ∧
      a.started = [.resolve 1 ['a'] 80, .connect 1 (.v4 0x08080808 80)] ∧
      agentAddressAllowed policy (canonicalizeAddress (.v4 0x08080808 80)).ip = true ∧
      ∃ candidates, .resolveOk 1 candidates ∈ a.ep.log ∧ .v4 0x08080808 80 ∈ candidates := by
  intro policy labels
  refine ⟨_, rfl, rfl, ?_⟩
  have hc : Operation.connect 1 (.v4 0x08080808 80) ∈
      [Operation.resolve 1 ['a'] 80, .connect 1 (.v4 0x08080808 80)] :=
    List.mem_cons_of_mem _ (List.mem_singleton_self _)
  have h := agent_connects_where_permitted oneStream policy smallCaps
    (Lts.reachable_exec labels (Reachable.start _) rfl) hc
  exact ⟨h.1, h.2 ['a'] 80 (List.mem_cons_self ..)⟩

end Alighieri.Rdp
