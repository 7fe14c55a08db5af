import Alighieri.Rdp.Lane

/-!
# The moves of a stream keep its two ends in agreement

A move of one end is a step of the dialogue and an account of the stream. When the agent passes
over an identifier, nothing under way may announce it any more; that is known of the session as a
whole.
-/

namespace Alighieri.Rdp
open Net Dialogue List Side

variable {ka ka' kc kc' : Bool} {heard said : List Msg} {a' : Mode}
  {down' inp new out up' : List Frame} {y' : Side AgentStreamState} {ops' : List Operation}
  {σ : Type} {f : Frame} {port : ℕ}

namespace Dialogue

theorem ClientStep.resolving (h : ClientStep .resolving kc heard .resolving kc' said) :
    said = [] := by
  cases h with
  | own known hown =>
    cases hown
    rfl
  | hear known m hh => cases m <;> cases hh

theorem ClientStep.from_idle {c' : Mode} (h : ClientStep .idle kc [] c' kc' said) :
    (c' = .idle ∧ said = []) ∨ (kc = false ∧ c' ≠ .idle) := by
  cases h with
  | own known hown =>
    cases hown
    exact .inl ⟨rfl, rfl⟩
  | pass => exact .inl ⟨rfl, rfl⟩
  | ask | want => exact .inr ⟨rfl, by simp⟩
  | cancelEarly known ht hc => cases ht

theorem AgentStep.from_idle (h : AgentStep .idle ka [] a' ka' said) : a' = .idle ∧ said = [] := by
  cases h with
  | own known hown =>
    cases hown
    exact ⟨rfl, rfl⟩

theorem AgentStep.says_resolveOk {a : Mode} (h : AgentStep a ka heard a' ka' said)
    (hs : Msg.resolveOk ∈ said) : a = .resolving ∧ a' = .resolved ∧ heard = [] := by
  cases h with
  | own known hown => cases hown <;> simp at hs
  | resolved => exact ⟨rfl, rfl, rfl⟩
  | _ => simp at hs

end Dialogue

theorem Conduit.moved {window : ℕ} {lx lx' ly : Prop} {s s' t : Stream} {fs gs used : List Frame}
    (hout : Conduit window ly (lx ∧ ly) s t fs (used ++ gs))
    (hin : Conduit window lx (ly ∧ lx) t s (used ++ gs) fs) (ha : Account lx lx' s s' used new) :
    Conduit window ly (lx' ∧ ly) s' t (fs ++ new) gs ∧
      Conduit window lx' (ly ∧ lx') t s' gs (fs ++ new) := by
  refine ⟨hout.sender ha ?_, hin.receiver ha ?_⟩
  · rintro ⟨hx, hy⟩
    exact ⟨⟨(ha.received hx).1, hy⟩, hx⟩
  · rintro ⟨hy, hx⟩
    exact ⟨⟨hy, (ha.received hx).1⟩, hx⟩

theorem Side.owes_close {x : Side σ} : ∀ m ∈ x.owes, m = .close := by
  intro m hm
  unfold owes at hm
  split at hm
  · cases hq : x.stream.all (·.closeQueued) <;> rw [hq] at hm
    · exact mem_singleton.mp hm
    · cases hm
  · cases hm

theorem Said.sign_mem {id : ℕ} {x x' : Side σ} (h : Said id x x' out new said) (hf : f ∈ new) :
    f.sign = .close ∨ f.sign ∈ said := by
  have hm : f.sign ∈ new.map Frame.sign ++ x'.owes :=
    mem_append_left _ (mem_map_of_mem hf)
  rw [h.words] at hm
  rcases mem_append.mp hm with hm | hm
  · exact .inl (owes_close _ hm)
  · exact .inr hm

theorem Said.under_way {id : ℕ} {x x' : Side σ} (h : Said id x x' out new said) (up : List Frame) :
    up ++ out ++ x'.hand id = up ++ x.hand id ++ new := by
  rw [append_assoc, h.hand, append_assoc]

theorem Said.word {id : ℕ} {x x' : Side σ} (h : Said id x x' out new said) (up : List Frame) :
    (up ++ out ++ x'.hand id).map Frame.sign ++ x'.owes =
      (up ++ x.hand id).map Frame.sign ++ x.owes ++ said := by
  rw [h.under_way, map_append, append_assoc, h.words, ← append_assoc]

theorem Settles.conduits {τ : Type} [StreamState σ] [Party σ] [StreamState τ] [Party τ]
    {limits : NegotiatedLimits} {id : ℕ} {x x' : Side σ} {y : Side τ} {up down : List Frame}
    (hs : Settles limits x x' inp new) (hsaid : Said id x x' out new said)
    (hto : Conduit limits.receiveWindow y.Listens (x.Listens ∧ y.Listens)
      (x.live limits.receiveWindow) (y.live limits.receiveWindow) (y.recv ++ up ++ x.hand id)
      (x.recv ++ (inp ++ down) ++ y.hand id))
    (hfrom : Conduit limits.receiveWindow x.Listens (y.Listens ∧ x.Listens)
      (y.live limits.receiveWindow) (x.live limits.receiveWindow)
      (x.recv ++ (inp ++ down) ++ y.hand id) (y.recv ++ up ++ x.hand id)) :
    Conduit limits.receiveWindow y.Listens (x'.Listens ∧ y.Listens)
      (x'.live limits.receiveWindow) (y.live limits.receiveWindow)
      (y.recv ++ (up ++ out) ++ x'.hand id) (x'.recv ++ down ++ y.hand id) ∧
    Conduit limits.receiveWindow x'.Listens (y.Listens ∧ x'.Listens)
      (y.live limits.receiveWindow) (x'.live limits.receiveWindow)
      (x'.recv ++ down ++ y.hand id) (y.recv ++ (up ++ out) ++ x'.hand id) := by
  obtain ⟨⟨used, hrecv, hacc⟩, -⟩ := hs
  have hused : x.recv ++ (inp ++ down) ++ y.hand id = used ++ (x'.recv ++ down ++ y.hand id) := by
    rw [← append_assoc, hrecv]
    simp only [append_assoc]
  have hnew : y.recv ++ (up ++ out) ++ x'.hand id = y.recv ++ up ++ x.hand id ++ new := by
    rw [← append_assoc, hsaid.under_way]
  rw [hused] at hto hfrom
  rw [hnew]
  exact hto.moved hfrom hacc

theorem SideMove.state {maxData id : ℕ} {x x' : Side σ} (h : SideMove maxData id x x' out) :
    x'.state = x.state := by
  cases h <;> rfl

section Client

variable {limits : NegotiatedLimits} {id : ℕ} {x x' : Side ClientStreamState}
  {inp out : List Frame}

theorem ClientMove.resolving (hx : x.Sound limits id) (h : ClientMove limits id x x' inp out)
    (hst : x'.state = some (.resolving port)) :
    x.state = some (.resolving port) ∨ (x.known = false ∧ out = [] ∧ x'.stream = none ∧
      ∃ hostname, x'.await = .ordered (.resolve id port hostname) .done) := by
  cases h with
  | side h => exact .inl (h.state ▸ hst)
  | pass | commandError | frameError =>
    exact .inl hst
  | command hid hrun hidle hnew h =>
    cases handleClientCommand_case h with
    | keep => exact .inl hst
    | resolve =>
      cases hst
      cases hid
      obtain ⟨hk, -⟩ := hnew rfl
      exact .inr ⟨hk, rfl, (hx.fresh hk).2.1, _, rfl⟩
    | openTo | openIp | closeOpened | closeEarly => cases hst
  | frame hf hrun hidle h =>
    cases handleClientFrame_case h with
    | flow | late => exact .inl hst
    | @openFailed _ _ _ candidates => cases candidates <;> cases hst
    | _ => cases hst
  | event hrun hidle hw =>
    rename_i w rest
    have hst' : (clientWorkerEvent ⟨x.state, x.stream⟩ w).state = some (.resolving port) := hst
    have hcase := clientWorkerEvent_case ⟨x.state, x.stream⟩ w
    generalize clientWorkerEvent ⟨x.state, x.stream⟩ w = y at hcase hst'
    cases hcase with
    | ignored => exact .inl hst'
    | retired _ _ hno _ => cases (hno _ hst').2

theorem ClientMove.odd (hx : x.Sound limits id) (h : ClientMove limits id x x' inp out)
    (hk : x.known = false) (hm : x'.mode ≠ .idle) : id % 2 = 1 := by
  obtain ⟨hst, hs, ha⟩ := hx.fresh hk
  have hmode : x.mode = .idle := mode_none hst (by rw [ha]; rfl)
  cases h with
  | side h =>

    cases h with
    | skip | stop => exact absurd hmode hm
    | act a hs' | torn hend hs' => rw [hs] at hs'; cases hs'
    | sent hrun ha' | closeFound hrun ha' | closeTaken hrun ha' | closeSent hrun ha'
    | pushed hrun ha' | refused hrun ha' =>
      rw [ha] at ha'; cases ha'
  | pass known ended | commandError hid hrun hidle hnew hv h | frameError hf hrun hidle h =>
    exact absurd hmode hm
  | command hid hrun hidle hnew h =>
    rename_i cmd r
    cases hcr : Client.creates cmd with
    | true => exact (hnew hcr).2
    | false =>
      cases handleClientCommand_case h with
      | keep => exact (hm (mode_none hst rfl)).elim
      | resolve | openIp => cases hcr
      | openTo hs' | closeOpened hs' | closeEarly permit hs' => cases hst.symm.trans hs'
  | frame hf hrun hidle h =>
    rename_i f r
    rw [hst] at h
    cases f with
    | data =>
      obtain ⟨a, ha', -⟩ := bind_ok h
      unfold handleData at ha'
      split at ha' <;> cases ha'
    | shutdownWrite | windowUpdate =>
      obtain ⟨t, ht, -⟩ := bind_ok h
      cases ht
    | _ => cases h
  | event hrun hidle hw =>
    obtain ⟨s, hs', -⟩ := hx.events _ (by rw [hw]; exact mem_cons_self)
    rw [hs] at hs'
    cases hs'

end Client

namespace Lane.Conforms

variable {limits : NegotiatedLimits} {policy : AgentPolicy} {id : ℕ} {l : Lane}

theorem client_unknown (hc : l.Conforms limits id) (hx : l.client.Sound limits id)
    (hk : l.client.known = false) : l.up = [] ∧ l.down = [] ∧ l.agent.hand id = [] ∧ l.ops = [] := by
  obtain ⟨hst, -, ha⟩ := hx.fresh hk
  have hphase := hc.phase
  rw [hk, mode_none hst (by rw [ha]; rfl)] at hphase
  obtain ⟨-, hka, hu, hd⟩ := hphase.client_fresh
  simp only [Lane.upWord, Lane.downWord, append_eq_nil_iff, map_eq_nil_iff] at hu hd
  exact ⟨hu.1.1, hd.1.1, hd.1.2, hc.unasked hka⟩

theorem client_ports (hc : l.Conforms limits id) (hx : l.client.Sound limits id)
    {x' : Side ClientStreamState} (h : ClientMove limits id l.client x' inp out)
    (hd : l.down = inp ++ down') (hsaid : Said id l.client x' out new said)
    (hstep : ClientStep l.client.mode l.client.known (inp.map Frame.sign) x'.mode x'.known said)
    (hst' : x'.state = some (.resolving port)) :
    Lane.Ports id port { l with client := x', up := l.up ++ out, down := down' } := by
  rcases h.resolving hx hst' with hst | ⟨hk, rfl, hs', hostname, ha'⟩
  · have hports := hc.ports port hst
    refine ⟨?_, hports.running, ?_⟩
    · intro i p hostname hf
      rw [hsaid.under_way] at hf
      rcases mem_append.mp hf with hf | hf
      · exact hports.asked i p hostname hf
      · -- nothing is said while the answer is awaited
        rw [mode_some hst, mode_some hst'] at hstep
        have hnone := ClientStep.resolving hstep
        rcases hsaid.sign_mem hf with hs | hs
        · cases hs
        · rw [hnone] at hs
          cases hs
    · intro i addresses hf
      refine hports.answered i addresses ?_
      rw [hd, append_assoc]
      exact mem_append_right _ hf
  · obtain ⟨hup, hdown, hhand, hops⟩ := hc.client_unknown hx hk
    refine ⟨?_, ?_, ?_⟩
    · intro i p hn hf
      simp only [hup, hand, hs', ha', Await.hand, Option.elim_none, nil_append,
        mem_singleton] at hf
      cases hf
      rfl
    · intro i hn p hop
      rw [show l.ops = [] from hops] at hop
      cases hop
    · intro i addresses hf
      rw [hd] at hdown
      rw [(append_eq_nil_iff.mp hdown).2, hhand] at hf
      cases hf

theorem client_move (hc : l.Conforms limits id) (hx : l.client.Sound limits id)
    (hp : l.client.Poised id) {x' : Side ClientStreamState}
    (h : ClientMove limits id l.client x' inp out) (hd : l.down = inp ++ down') :
    Lane.Conforms limits id { l with client := x', up := l.up ++ out, down := down' } := by
  have hok : ∀ f ∈ inp, ∀ alive,
      ∃ r, handleClientFrame limits alive ⟨l.client.state, l.client.stream⟩ f = .ok r := by
    intro f hf alive
    cases h with
    | frame hl hrun hidle h | frameError hl hrun hidle h =>
      rw [mem_singleton.mp hf] at *
      exact hc.client_frame hx hrun hidle hd hl alive
    | _ => cases hf
  have hne : ∀ f ∈ inp, ∀ i, f ≠ .resolveOk i [] := by
    rintro f hf i rfl
    have hfair := hc.fairDown _ (by rw [hd]; exact mem_append_left _ (mem_append_left _ hf))
    cases hfair
  obtain ⟨new, said, hsaid, hstep⟩ := h.speaks hx hp hok hne
  have hset := h.settles hx hp hsaid.hand hstep hok (hx.fits hc.falling)
  have hrise := hc.rising
  have hfall := hc.falling
  rw [Lane.downFrames, hd] at hrise hfall
  obtain ⟨hrise', hfall'⟩ := hset.conduits hsaid hrise hfall
  have hupWord : Lane.upWord id { l with client := x', up := l.up ++ out, down := down' } =
      l.upWord id ++ said := hsaid.word l.up
  have hdownWord : l.downWord id = inp.map Frame.sign ++
      Lane.downWord id { l with client := x', up := l.up ++ out, down := down' } := by
    simp only [Lane.downWord, hd, map_append, append_assoc]
  refine ⟨?_, hrise', hfall', ?_, ?_, fun port => hc.client_ports hx h hd hsaid hstep,
    hc.unasked, ?_⟩
  · have hphase := hc.phase
    rw [hdownWord] at hphase
    rw [hupWord]
    exact hphase.client_step hstep
  · intro f hf
    rw [hsaid.under_way] at hf
    rcases mem_append.mp hf with hf | hf
    · exact hc.fairUp f hf
    · exact hset.2 f hf
  · intro f hf
    refine hc.fairDown f ?_
    rw [hd, append_assoc]
    exact mem_append_right _ hf
  · intro heven
    obtain ⟨hm, hma, hu, hdn⟩ := hc.unused heven
    rw [hdownWord] at hdn
    obtain ⟨hheard, hdn'⟩ := append_eq_nil_iff.mp hdn
    rw [hm, hheard] at hstep
    rcases ClientStep.from_idle hstep with ⟨hm', hsnil⟩ | ⟨hk, hm'⟩
    · refine ⟨hm', hma, ?_, hdn'⟩
      rw [hupWord, hu, hsnil]
      rfl
    · exact absurd (h.odd hx hk hm') heven

end Lane.Conforms

section Agent

variable {limits : NegotiatedLimits} {policy : AgentPolicy} {id : ℕ}
  {y y' : Side AgentStreamState} {ops ops' : List Operation} {inp out : List Frame}

theorem Side.mode_resolving (hm : y.mode = .resolving) : y.state = some .resolving := by
  unfold mode at hm
  cases hst : y.state with
  | none =>
    rw [hst] at hm
    cases hn : y.await.next <;> simp only [hn] at hm <;> cases hm
  | some st =>
    rw [hst] at hm
    cases st with
    | resolving => rfl
    | opened =>
      simp only [Party.mode] at hm
      cases hq : y.stream.any (·.closeQueued) <;> rw [hq] at hm <;> cases hm
    | _ => cases hm

theorem AgentMove.resolves (hy : y.Sound limits id)
    (h : AgentMove limits policy id y ops y' ops' [] out) (hm : y.mode = .resolving)
    (hm' : y'.mode = .resolved) :
    ∃ i hostname p addresses, Operation.resolve i hostname p ∈ ops ∧
      (∀ a ∈ addresses, a.port = p) ∧ y.await = .idle ∧ y'.stream = y.stream ∧ out = [] ∧
      y'.await = .ordered (.resolveOk i addresses) (.resolved i addresses) := by
  have hst := mode_resolving hm
  have hsame : y'.state = y.state → False := by
    intro he
    rw [mode_some (he.trans hst)] at hm'
    cases hm'
  cases h with
  | side h => exact (hsame h.state).elim
  | pass | finishError => exact (hsame rfl).elim
  | event hrun hidle hw =>
    rename_i w rest
    refine (hsame ?_).elim
    show (agentWorkerEvent ⟨y.state, y.stream⟩ w).state = y.state
    rw [agentWorkerEvent_other w (by simp [hst])]
  | finish hop hid hrun hidle hd h hsub =>
    rename_i op answer done e await
    cases finishAgentOperation_case h with
    | gone hs =>
      have hs' : y.state = none ∨ y.state = some .cancelled := hs
      rw [hst] at hs'
      rcases hs' with hs' | hs' <;> cases hs'
    | resolved =>
      cases op with
      | connect => cases answer <;> cases hd
      | resolve i' hostname p =>
        rcases answer with (_ | found) | _ <;> cases hd
        exact ⟨_, hostname, p, _, hop, resolveRemote_port policy p found, hidle, rfl, rfl, rfl⟩
    | unresolved =>
      rw [mode_none rfl rfl] at hm'
      cases hm'
    | opened bound hs | unopened code diagnostic hs => cases hst.symm.trans hs
  | resolved hrun ha | opened hrun ha =>
    rw [(hy.announced ha (by simp [Next.inserts])).1] at hst
    cases hst

theorem AgentMove.resolution (h : AgentMove limits policy id y ops y' ops' inp out)
    {i p : ℕ} {hostname : Text} (hop : Operation.resolve i hostname p ∈ ops') :
    Operation.resolve i hostname p ∈ ops ∨ Frame.resolve i p hostname ∈ inp := by
  cases h with
  | frame hv hk hf hrun hidle h =>
    rcases mem_append.mp hop with hop | hop
    · exact .inl hop
    · cases handleAgentFrame_case h with
      | resolve =>
        cases mem_singleton.mp hop
        exact .inr (mem_singleton_self _)
      | connectNew | connect => cases mem_singleton.mp hop
      | _ => cases hop
  | finish hop' hid hrun hidle hd h hsub | finishError hop' hid hrun hidle hd h hsub =>
    exact .inl (hsub _ hop)
  | _ => exact .inl hop

theorem Frame.streamId_of_lane (h : f.lane = some id) : f.streamId = id := by
  cases f <;> first | exact Option.some.inj h | cases h

theorem AgentMove.unasked (hy : y.Sound limits id)
    (h : AgentMove limits policy id y ops y' ops' inp out) (hops : y.known = false → ops = [])
    (hk' : y'.known = false) : ops' = [] := by
  cases h with
  | side h =>
    have hk : y'.known = y.known := by cases h <;> rfl
    exact hops (hk ▸ hk')
  | pass known =>
    have hor : (y.known || known) = false := hk'
    exact hops (Bool.or_eq_false_iff.mp hor).1
  | frame hv hk hf hrun hidle h =>
    rename_i r
    have hlow : r.highest < id := by
      have hr' : id.ble r.highest = false := hk'
      rw [← Bool.not_eq_true, Nat.ble_eq] at hr'
      omega
    have hchange := handleAgentFrame_change h
    have hkn : y.known = false := by
      have hle := hchange.spawns.2
      rw [hk, ← Bool.not_eq_true, Nat.ble_eq]
      omega
    have hst : y.state = none := (hy.fresh hkn).1
    rw [hops hkn, nil_append]
    cases hchange with
    | keep state next spawned | cancel st state running cancelled next spawned
    | retire st state resting gone next spawned =>
      rw [spawned]
      rfl
    | create op st absent fresh notFull notBusy state await spawned created highest =>
      rw [Frame.streamId_of_lane hf] at highest
      omega
    | connect address candidates resolved mem notBusy state await spawned =>
      rw [spawned]
      have hres : y.state = _ := resolved
      rw [hst] at hres
      cases hres
  | frameError | event | resolved | opened =>
    exact hops hk'
  | finish hop | finishError hop =>
    rw [hops hk'] at hop
    cases hop

end Agent

theorem Frame.sign_unregistered (h : f.registers = none) :
    f.sign ≠ .resolve ∧ f.sign ≠ .openTo := by
  cases f with
  | resolve | openTo => cases h
  | _ => simp [Frame.sign]

namespace Lane.Conforms

variable {limits : NegotiatedLimits} {policy : AgentPolicy} {id : ℕ} {l : Lane}

theorem agent_ports (hc : l.Conforms limits id) (hy : l.agent.Sound limits id)
    (h : AgentMove limits policy id l.agent l.ops y' ops' inp out) (hu : l.up = inp ++ up')
    (hsaid : Said id l.agent y' out new said)
    (hstep : AgentStep l.agent.mode l.agent.known (inp.map Frame.sign) y'.mode y'.known said ∨
      said = []) (hst : l.client.state = some (.resolving port)) :
    Lane.Ports id port { l with agent := y', ops := ops', up := up', down := l.down ++ out } := by
  have hports := hc.ports port hst
  refine ⟨?_, ?_, ?_⟩
  · intro i p hostname hf
    refine hports.asked i p hostname ?_
    rw [hu, append_assoc]
    exact mem_append_right _ hf
  · intro i hostname p hop
    rcases h.resolution hop with hop | hf
    · exact hports.running i hostname p hop
    · refine hports.asked i p hostname ?_
      rw [hu, append_assoc]
      exact mem_append_left _ hf
  · intro i addresses hf
    rw [hsaid.under_way] at hf
    rcases mem_append.mp hf with hf | hf
    · exact hports.answered i addresses hf
    · -- the addresses of the operation that has just ended
      have hmem : Msg.resolveOk ∈ said := by
        rcases hsaid.sign_mem hf with hs | hs
        · cases hs
        · exact hs
      rcases hstep with hstep | hnone
      · obtain ⟨hm, hm', hheard⟩ := AgentStep.says_resolveOk hstep hmem
        rw [map_eq_nil_iff] at hheard
        subst hheard
        obtain ⟨j, hostname, p, found, hop, hfound, hidle, hs, rfl, ha⟩ := h.resolves hy hm hm'
        have hnew := committed hidle ha (by rw [hs]) hsaid.hand
        rw [hnew] at hf
        cases mem_singleton.mp hf
        rw [← hports.running _ hostname p hop]
        exact hfound
      · rw [hnone] at hmem
        cases hmem

theorem agent_move (hc : l.Conforms limits id) (hy : l.agent.Sound limits id)
    (hp : l.agent.Poised id) (h : AgentMove limits policy id l.agent l.ops y' ops' inp out)
    (hu : l.up = inp ++ up') (hpass : l.agent.known = false → y'.known = true → inp = [] →
      l.client.known = true ∧ ∀ f ∈ l.up ++ l.client.hand id, f.registers = none) :
    Lane.Conforms limits id { l with agent := y', ops := ops', up := up', down := l.down ++ out } := by
  have hok : ∀ f ∈ inp, ∀ v : AgentView, v.limits = limits → l.agent.known = id.ble v.highest →
      ∃ r, handleAgentFrame v ⟨l.agent.state, l.agent.stream⟩ f = .ok r := by
    intro f hf v hv hk
    cases h with
    | frame hv' hk' hl hrun hidle h | frameError hv' hk' hl hrun hidle h =>
      rw [mem_singleton.mp hf] at *
      exact hc.agent_frame hy hrun hidle hu hl hv hk
    | _ => cases hf
  obtain ⟨new, said, hsaid, hspeaks⟩ := h.speaks hy hp hok
  have hhears : y'.Heeds → l.agent.Heeds := by
    intro hm hk
    rcases hspeaks with hstep | ⟨-, -, hk', -⟩
    · exact hstep.hears hm hk
    · rw [hk] at hk'
      cases hk'
  have hset := h.settles hy hp hsaid.hand hhears hok (hy.fits hc.rising)
  have hrise := hc.rising
  have hfall := hc.falling
  rw [Lane.upFrames, hu] at hrise hfall
  obtain ⟨hfall', hrise'⟩ := hset.conduits hsaid hfall hrise
  have hdownWord : Lane.downWord id
      { l with agent := y', ops := ops', up := up', down := l.down ++ out } =
        l.downWord id ++ said := hsaid.word l.down
  have hupWord : l.upWord id = inp.map Frame.sign ++ Lane.upWord id
      { l with agent := y', ops := ops', up := up', down := l.down ++ out } := by
    simp only [Lane.upWord, hu, map_append, append_assoc]
  refine ⟨?_, hrise', hfall', ?_, ?_, ?_, h.unasked hy hc.unasked, ?_⟩
  · have hphase := hc.phase
    rw [hdownWord]
    rcases hspeaks with hstep | ⟨hinp, hnone, hk, hk', hm, hm'⟩
    · rw [hupWord] at hphase
      exact hphase.agent_step hstep
    · obtain ⟨hck, hregs⟩ := hpass hk hk' hinp
      subst hinp
      have hword : ∀ m ∈ l.upWord id, m ≠ .resolve ∧ m ≠ .openTo := by
        intro m hmem
        rcases mem_append.mp hmem with hmem | hmem
        · obtain ⟨f, hf, rfl⟩ := mem_map.mp hmem
          exact Frame.sign_unregistered (hregs f hf)
        · rw [owes_close m hmem]
          simp
      rw [hm, hck] at hphase
      have hpassed := hphase.agent_pass hword
      rw [hupWord] at hpassed
      rw [hnone, append_nil]
      show Phase l.client.mode l.client.known y'.mode y'.known _ _
      rw [hck, hk', hm']
      exact hpassed
  · intro f hf
    refine hc.fairUp f ?_
    rw [hu, append_assoc]
    exact mem_append_right _ hf
  · intro f hf
    rw [hsaid.under_way] at hf
    rcases mem_append.mp hf with hf | hf
    · exact hc.fairDown f hf
    · exact hset.2 f hf
  · intro port hst
    exact hc.agent_ports hy h hu hsaid (hspeaks.imp (fun hs => hs) fun hs => hs.2.1) hst
  · intro heven
    obtain ⟨hm, hma, huw, hdw⟩ := hc.unused heven
    rw [hupWord] at huw
    obtain ⟨hheard, huw'⟩ := append_eq_nil_iff.mp huw
    have hquiet : y'.mode = .idle ∧ said = [] := by
      rcases hspeaks with hstep | ⟨-, hnone, -, -, -, hm'⟩
      · rw [hma, hheard] at hstep
        exact AgentStep.from_idle hstep
      · exact ⟨hm', hnone⟩
    refine ⟨hm, hquiet.1, huw', ?_⟩
    rw [hdownWord, hdw, hquiet.2]
    rfl

end Lane.Conforms

end Alighieri.Rdp
