import Alighieri.Rdp.Accounts

/-!
# A stream between its two ends

`Lane` is one stream of a session: its two sides, its operations at the agent, and the frames on
their way up and down. Under `Lane.Conforms` no frame of the stream is refused.
-/

namespace Alighieri.Rdp
open Net Dialogue Lts Side

variable {payload : Bytes} {v : AgentView} {e : Entry AgentStreamState} {σ : Type}
  {fs' rest : List Frame} {port : ℕ} {x : Side σ}

structure Lane where
  client : Side ClientStreamState
  agent : Side AgentStreamState
  ops : List Operation
  up : List Frame
  down : List Frame

namespace Lane

/- What the agent will have been told when everything under way has arrived. -/
def upWord (id : ℕ) (l : Lane) : List Msg :=
  (l.up ++ l.client.hand id).map Frame.sign ++ l.client.owes

def downWord (id : ℕ) (l : Lane) : List Msg :=
  (l.down ++ l.agent.hand id).map Frame.sign ++ l.agent.owes

/- The frames the stream of the agent has still to take in. -/
def upFrames (id : ℕ) (l : Lane) : List Frame := l.agent.recv ++ l.up ++ l.client.hand id

def downFrames (id : ℕ) (l : Lane) : List Frame := l.client.recv ++ l.down ++ l.agent.hand id

/- A resolution keeps the port it was asked for. -/
structure Ports (id port : ℕ) (l : Lane) : Prop where
  asked : ∀ i p hostname, Frame.resolve i p hostname ∈ l.up ++ l.client.hand id → p = port
  running : ∀ i hostname p, Operation.resolve i hostname p ∈ l.ops → p = port
  answered : ∀ i addresses, Frame.resolveOk i addresses ∈ l.down ++ l.agent.hand id →
    ∀ a ∈ addresses, a.port = port

structure Conforms (limits : NegotiatedLimits) (id : ℕ) (l : Lane) : Prop where
  phase : Phase l.client.mode l.client.known l.agent.mode l.agent.known (l.upWord id) (l.downWord id)
  rising : Conduit limits.receiveWindow l.agent.Listens (l.client.Listens ∧ l.agent.Listens)
    (l.client.live limits.receiveWindow) (l.agent.live limits.receiveWindow) (l.upFrames id)
    (l.downFrames id)
  falling : Conduit limits.receiveWindow l.client.Listens (l.agent.Listens ∧ l.client.Listens)
    (l.agent.live limits.receiveWindow) (l.client.live limits.receiveWindow) (l.downFrames id)
    (l.upFrames id)
  fairUp : ∀ f ∈ l.up ++ l.client.hand id, f.fair limits.maxData = true
  fairDown : ∀ f ∈ l.down ++ l.agent.hand id, f.fair limits.maxData = true
  ports : ∀ port, l.client.state = some (.resolving port) → l.Ports id port
  unasked : l.agent.known = false → l.ops = []
  unused : id % 2 ≠ 1 → l.client.mode = .idle ∧ l.agent.mode = .idle ∧ l.upWord id = [] ∧
    l.downWord id = []

end Lane

/- What the invariant of a direction says about the next frame of its receiver. -/

namespace Conduit

variable {maxData window i : ℕ} {listens engaged : Prop} {s t : Stream} {fs gs : List Frame}

theorem finishes (hc : Conduit window listens engaged t s (.shutdownWrite i :: fs) gs)
    (hl : listens) : ∃ s', s.finishInbound = .ok s' := by
  have heof := hc.eof hl
  cases he : s.inboundEof with
  | true =>
    rw [he] at heof
    cases heof
  | false => exact ⟨{ s with inboundEof := true }, by simp [Stream.finishInbound, he]⟩

theorem credits {credit : ℕ}
    (hc : Conduit window listens engaged s t fs (.windowUpdate i credit :: gs))
    (hs : s.Sound maxData window) (hw : window < 2 ^ 32) (hpos : 0 < credit) :
    ∃ s', s.addCredit credit = .ok s' := by
  have hle := hc.credit
  have hsum : creditSum (.windowUpdate i credit :: gs) = credit + creditSum gs := by
    simp [creditSum, Frame.credit]
  have hheld : s.peerCredit.available ≤ s.held := Nat.le_add_right _ _
  rw [hsum] at hle
  have hmax := hs.maximum
  have hadd : s.peerCredit.add credit =
      .ok { s.peerCredit with available := s.peerCredit.available + credit } := by
    rw [CreditWindow.add, if_neg (by omega), if_neg (by omega), if_neg (by omega)]
  exact ⟨_, by rw [Stream.addCredit, hadd]⟩

theorem pushes (hc : Conduit window listens engaged t s (.data i payload :: fs) gs) (hl : listens)
    (hs : s.Sound maxData window) (hr : s.remoteClosed = false) (hg : s.receiveGateFree = true) :
    ∃ s', s.pushInbound payload = .ok s' := by
  have heof : s.inboundEof = false := by
    have heof := hc.eof hl
    cases he : s.inboundEof with
    | true =>
      rw [he] at heof
      cases heof
    | false => rfl
  -- the credit worker stands at no gate, so all that is owed shows
  have howed : s.creditPc.owed = 0 := by
    have hfree : s.creditPc.holdsGates = false := by simpa [Stream.receiveGateFree] using hg
    cases hat : s.creditPc <;> rw [hat] at hfree <;> first | rfl | cases hfree
  have hlen : (dataBytes (.data i payload :: fs)).length = payload.length + (dataBytes fs).length := by
    simp [dataBytes, Frame.bytes]
  have hle := hc.credit
  have hkept : s.kept = s.inbound.length + s.returnedCredit := rfl
  have hcredit := hs.credit
  have hcap := hs.capacity
  rw [hlen] at hle
  exact ⟨_, by rw [Stream.pushInbound, if_neg (by simp [heof, hr]), if_neg (by omega),
    if_neg (by omega)]⟩

end Conduit

/- The flow frame `f` is no error for a stream that stands so. -/
structure Accepts (limits : NegotiatedLimits) (standing : Standing) (stream : Option Stream)
    (f : Frame) : Prop where
  data : ∀ i payload, f = .data i payload → ∃ a, handleData limits standing i payload = .ok a
  shutdown : ∀ i, f = .shutdownWrite i → ∃ t, handleShutdownWrite standing stream = .ok t
  credit : ∀ i credit, f = .windowUpdate i credit → ∃ t, handleWindowUpdate credit standing stream = .ok t

namespace Accepts

variable {limits : NegotiatedLimits} {stream : Option Stream} {f : Frame}

theorem ignores (hfair : f.fair limits.maxData = true) : Accepts limits .ignores stream f := by
  refine ⟨?_, fun i _ => ⟨stream, rfl⟩, fun i credit _ => ⟨stream, rfl⟩⟩
  rintro i payload rfl
  have hle : payload.length ≤ limits.maxData := by simpa [Frame.fair] using hfair
  exact ⟨.idle, by rw [handleData, if_neg (by omega)]⟩

theorem takes {s : Stream} (hs : stream = some s) (hfair : f.fair limits.maxData = true)
    (hshut : ∀ i, f = .shutdownWrite i → ∃ s', s.finishInbound = .ok s')
    (hcredit : ∀ i credit, f = .windowUpdate i credit → ∃ s', s.addCredit credit = .ok s') :
    Accepts limits .takes stream f := by
  subst hs
  refine ⟨?_, ?_, ?_⟩
  · rintro i payload rfl
    have hle : payload.length ≤ limits.maxData := by simpa [Frame.fair] using hfair
    exact ⟨.creditGate i payload, by rw [handleData, if_neg (by omega)]⟩
  · rintro i hf
    obtain ⟨s', hs'⟩ := hshut i hf
    exact ⟨some s', by simp only [handleShutdownWrite, handleOnStream, hs']; rfl⟩
  · rintro i credit hf
    obtain ⟨s', hs'⟩ := hcredit i credit hf
    exact ⟨some s', by simp only [handleWindowUpdate, handleOnStream, hs']; rfl⟩

theorem client {e : Entry ClientStreamState} (alive : Bool) (hf : f.flows = true)
    (h : Accepts limits (ClientStreamState.standing e.state) e.stream f) :
    ∃ r, handleClientFrame limits alive e f = .ok r := by
  cases f with
  | data i payload =>
    obtain ⟨a, ha⟩ := h.data i payload rfl
    exact ⟨_, by simp only [handleClientFrame, ha]; rfl⟩
  | shutdownWrite i =>
    obtain ⟨t, ht⟩ := h.shutdown i rfl
    exact ⟨_, by simp only [handleClientFrame, ht]; rfl⟩
  | windowUpdate i credit =>
    obtain ⟨t, ht⟩ := h.credit i credit rfl
    exact ⟨_, by simp only [handleClientFrame, ht]; rfl⟩
  | _ => cases hf

theorem agent (hv : v.limits = limits) (hf : f.flows = true)
    (h : Accepts limits (AgentStreamState.standing e.state) e.stream f) :
    ∃ r, handleAgentFrame v e f = .ok r := by
  subst hv
  cases f with
  | data i payload =>
    obtain ⟨a, ha⟩ := h.data i payload rfl
    exact ⟨_, by simp only [handleAgentFrame, ha]; rfl⟩
  | shutdownWrite i =>
    obtain ⟨t, ht⟩ := h.shutdown i rfl
    exact ⟨_, by simp only [handleAgentFrame, ht]; rfl⟩
  | windowUpdate i credit =>
    obtain ⟨t, ht⟩ := h.credit i credit rfl
    exact ⟨_, by simp only [handleAgentFrame, ht]; rfl⟩
  | _ => cases hf

end Accepts

theorem Frame.flows_of_sign {f : Frame} {maxData id : ℕ} (hl : f.lane = some id)
    (hfair : f.fair maxData = true) (hs : f.sign = .flow) : f.flows = true := by
  cases f with
  | data | shutdownWrite | windowUpdate => rfl
  | hello h => cases hfair
  | ping | pong => cases hl
  | _ => cases hs

section Client

variable {limits : NegotiatedLimits} {id : ℕ} {l : Lane}

theorem Side.Sound.fits [StreamState σ] [Party σ] {engaged : Prop} {t : Stream}
    {fs gs : List Frame} (hx : x.Sound limits id)
    (hc : Conduit limits.receiveWindow x.Listens engaged t (x.live limits.receiveWindow)
      (x.recv ++ fs ++ fs') gs) : x.Fits id := by
  intro payload s hrun ha hs hg
  obtain ⟨-, st, hst, ho⟩ := hx.credit _ _ ha
  obtain ⟨t, ht, hclosed, hl⟩ := hx.listens hrun hst ho
  rw [hs] at ht
  cases ht
  rw [live_some hs] at hc
  simp only [recv, ha] at hc
  exact hc.pushes hl (hx.stream s hs) hclosed hg

theorem Side.Sound.accepts [StreamState σ] [Party σ] {l e e' : Prop} {t : Stream} {f : Frame}
    {fs gs : List Frame} (hx : x.Sound limits id) (hrun : x.ended = false)
    (hidle : x.await = .idle) {st : σ} (hst : x.state = some st)
    (ho : StreamState.opened st = true) (hfair : f.fair limits.maxData = true)
    (hin : Conduit limits.receiveWindow x.Listens e t (x.live limits.receiveWindow)
      (x.recv ++ (f :: fs) ++ fs') gs)
    (hout : Conduit limits.receiveWindow l e' (x.live limits.receiveWindow) t gs
      (x.recv ++ (f :: fs) ++ fs')) : Accepts limits .takes x.stream f := by
  obtain ⟨s, hs, -, hl⟩ := hx.listens hrun hst ho
  rw [recv_idle hidle, live_some hs] at hin hout
  refine Accepts.takes hs hfair ?_ ?_
  · rintro i rfl
    exact hin.finishes hl
  · rintro i credit rfl
    exact hout.credits (hx.stream s hs) limits.window_lt (by simpa [Frame.fair] using hfair)

theorem clientResolveOk_ok {e : Entry ClientStreamState} {i : ℕ} {addresses : List SocketAddr}
    (alive : Bool) (hst : e.state = some (.resolving port)) (hne : addresses ≠ [])
    (hp : ∀ a ∈ addresses, a.port = port) : ∃ r, clientResolveOk alive e i addresses = .ok r := by
  have hany : addresses.any (fun a => decide (a.port ≠ port)) = false := by simpa using hp
  unfold clientResolveOk
  simp only [hst, hany, if_neg hne, Bool.false_eq_true, if_false]
  cases alive
  · exact ⟨_, rfl⟩
  · exact ⟨_, rfl⟩

namespace Lane.Conforms

/-- No frame that reaches the client is refused. -/
theorem client_frame (hc : l.Conforms limits id) (hx : l.client.Sound limits id)
    (hrun : l.client.ended = false) (hidle : l.client.await = .idle) {f : Frame}
    (hd : l.down = f :: rest) (hf : f.lane = some id) (alive : Bool) :
    ∃ r, handleClientFrame limits alive ⟨l.client.state, l.client.stream⟩ f = .ok r := by
  have hfair := hc.fairDown f (by simp [hd])
  have hphase := hc.phase
  rw [Lane.downWord, hd] at hphase
  rcases hphase.client_takes with ⟨c', hhear, -⟩ | ⟨hclose, hmode, -⟩
  · cases hst : l.client.state with
    | none =>
      rw [mode_none hst (by rw [hidle]; rfl)] at hhear
      cases hsign : f.sign <;> rw [hsign] at hhear <;> cases hhear
    | some st =>
      have hm := mode_some hst
      cases st with
      | resolving port =>
        rw [hm] at hhear
        cases f with
        | resolveOk i addresses =>
          have hports := (hc.ports port hst).answered i addresses (by simp [hd])
          exact clientResolveOk_ok (e := ⟨_, _⟩) alive rfl (by simpa [Frame.fair] using hfair) hports
        | openError => exact ⟨_, rfl⟩
        | _ => cases hhear
      | resolved =>
        rw [hm] at hhear
        cases hsign : f.sign <;> rw [hsign] at hhear <;> cases hhear
      | opening =>
        rw [hm] at hhear
        cases f with
        | openOk | openError => exact ⟨_, rfl⟩
        | _ => cases hhear
      | opened =>
        -- an open stream takes flow frames, and the CLOSE that answers its own
        cases hsign : f.sign with
        | flow =>
          have hfall := hc.falling
          have hrise := hc.rising
          rw [Lane.downFrames, hd] at hfall hrise
          exact Accepts.client alive (Frame.flows_of_sign hf hfair hsign)
            (hx.accepts hrun hidle hst rfl hfair hfall hrise)
        | close =>
          cases f with
          | close => exact ⟨_, rfl⟩
          | _ => cases hsign
        | _ =>
          rw [hsign, hm, Party.opened _ _ _ rfl] at hhear
          cases hq : l.client.stream.any (·.closeQueued) <;> rw [hq] at hhear <;> cases hhear
      | closing =>
        rw [hm] at hhear
        cases hsign : f.sign with
        | flow =>
          exact Accepts.client alive (Frame.flows_of_sign hf hfair hsign) (Accepts.ignores hfair)
        | resolve | openTo =>
          rw [hsign] at hhear
          cases hhear
        | _ => cases f <;> first | exact ⟨_, rfl⟩ | cases hsign
  · cases hst : l.client.state with
    | none =>
      rw [mode_none hst (by rw [hidle]; rfl)] at hmode
      cases hmode
    | some st =>
      cases f with
      | close => cases st <;> exact ⟨_, rfl⟩
      | _ => cases hclose

end Lane.Conforms

end Client

section Agent

variable {limits : NegotiatedLimits} {id : ℕ} {l : Lane}

theorem Side.agent_state {y : Side AgentStreamState} (hidle : y.await = .idle) : match y.mode with
    | .idle => y.state = none
    | .resolved => ∃ candidates, y.state = some (.resolved candidates)
    | .opened | .leaving => y.state = some .opened
    | .closing _ => y.state = some .closing
    | _ => True := by
  cases hst : y.state with
  | none => rw [mode_none hst (by rw [hidle]; rfl)]
  | some st =>
    rw [mode_some hst]
    cases st with
    | resolved candidates => exact ⟨candidates, rfl⟩
    | opened =>
      rw [Party.opened _ _ _ rfl]
      cases y.stream.any (·.closeQueued) <;> rfl
    | _ => trivial

theorem validateLocalStreamId_odd (h : id % 2 = 1) : validateLocalStreamId id = .ok () := by
  rw [validateLocalStreamId, if_neg (by omega)]

theorem registerPeerStreamId_new {highest : ℕ} (h : id.ble highest = false) :
    registerPeerStreamId id highest = .ok id := by
  rw [registerPeerStreamId, if_neg]
  intro hle
  rw [Nat.ble_eq.mpr hle] at h
  cases h

theorem agentResolve_ok {hostname : Text} (hodd : id % 2 = 1) (hst : e.state = none)
    (hnew : id.ble v.highest = false) : ∃ r, agentResolve v e id port hostname = .ok r := by
  obtain ⟨state, stream⟩ := e
  cases hst
  simp only [agentResolve, validateLocalStreamId_odd hodd, registerPeerStreamId_new hnew]
  cases hfull : v.full || v.busy
  · exact ⟨_, rfl⟩
  · exact ⟨_, rfl⟩

theorem agentOpen_ok {address : SocketAddr} (hodd : id % 2 = 1)
    (hst : (e.state = none ∧ id.ble v.highest = false) ∨
      ∃ candidates, e.state = some (.resolved candidates)) :
    ∃ r, agentOpen v e id address = .ok r := by
  obtain ⟨state, stream⟩ := e
  rcases hst with ⟨hst, hnew⟩ | ⟨candidates, hst⟩
  · cases hst
    simp only [agentOpen, validateLocalStreamId_odd hodd, registerPeerStreamId_new hnew]
    cases hfull : v.full
    · exact ⟨_, rfl⟩
    · exact ⟨_, rfl⟩
  · cases hst
    simp only [agentOpen, validateLocalStreamId_odd hodd]
    by_cases hmem : canonicalizeAddress address ∈ candidates
    · exact ⟨_, if_pos hmem⟩
    · exact ⟨_, if_neg hmem⟩

theorem agentClose_ok {reason : CloseReason} (hodd : id % 2 = 1)
    (hst : e.state = none → id ≤ v.highest) : ∃ r, agentClose v e id reason = .ok r := by
  obtain ⟨state, stream⟩ := e
  simp only [agentClose, validateLocalStreamId_odd hodd]
  cases state with
  | none => exact ⟨_, if_pos (hst rfl)⟩
  | some st => cases st <;> exact ⟨_, rfl⟩

namespace Lane.Conforms

/-- No frame that reaches the agent is refused. -/
theorem agent_frame (hc : l.Conforms limits id) (hy : l.agent.Sound limits id)
    (hrun : l.agent.ended = false) (hidle : l.agent.await = .idle) {f : Frame}
    (hu : l.up = f :: rest) (hf : f.lane = some id) (hv : v.limits = limits)
    (hk : l.agent.known = id.ble v.highest) :
    ∃ r, handleAgentFrame v ⟨l.agent.state, l.agent.stream⟩ f = .ok r := by
  have hfair := hc.fairUp f (by simp [hu])
  have hodd : id % 2 = 1 := by
    by_contra hne
    have hword := (hc.unused hne).2.2.1
    rw [Lane.upWord, hu] at hword
    cases hword
  have hphase := hc.phase
  rw [Lane.upWord, hu] at hphase
  have hstate := agent_state hidle
  rcases hphase.agent_takes with ⟨hsign, hm, hkn⟩ | ⟨hsign, hm⟩ | ⟨hsign, hm⟩ | ⟨hsign, hm⟩
  · -- RESOLVE announces the identifier
    cases f with
    | resolve =>
      cases hf
      rw [hm] at hstate
      exact agentResolve_ok hodd hstate (hk ▸ hkn)
    | _ => cases hsign
  · -- OPEN announces it, or follows RESOLVE_OK
    cases f with
    | openTo =>
      cases hf
      refine agentOpen_ok hodd ?_
      rcases hm with ⟨hm, hkn⟩ | hm <;> rw [hm] at hstate
      · exact .inl ⟨hstate, hk ▸ hkn⟩
      · exact .inr hstate
    | _ => cases hsign
  · refine Accepts.agent hv (Frame.flows_of_sign hf hfair hsign) ?_
    have hopened : l.agent.state = some .opened →
        Accepts limits (AgentStreamState.standing l.agent.state) l.agent.stream f := by
      intro hst
      have hfall := hc.falling
      have hrise := hc.rising
      rw [Lane.upFrames, hu] at hfall hrise
      rw [hst]
      exact hy.accepts hrun hidle hst rfl hfair hrise hfall
    cases hmode : l.agent.mode with
    | opened | leaving =>
      rw [hmode] at hstate
      exact hopened hstate
    | closing =>
      rw [hmode] at hstate
      simp only [hstate]
      exact Accepts.ignores hfair
    | _ =>
      rw [hmode] at hm
      rcases hm with hm | hm <;> cases hm
  · -- a CLOSE for an identifier without a stream is acknowledged if it has been used
    cases f with
    | close =>
      cases hf
      refine agentClose_ok hodd fun hst => ?_
      have hidleMode : l.agent.mode = .idle := mode_none hst (by rw [hidle]; rfl)
      rcases hm with ⟨-, hkn⟩ | hm | hm
      · exact Nat.ble_eq.mp (hk ▸ hkn)
      · rw [hidleMode] at hm
        cases hm
      · rw [hidleMode] at hm
        cases hm
    | _ => cases hsign

end Lane.Conforms

end Agent

end Alighieri.Rdp
