import Alighieri.Rdp.Buffers
import Alighieri.Rdp.Conform

/-!
# No protocol errors between conforming ends (mux.rs:1450-1783, 2008-2364)

What the handlers of the two drivers are given in a session they accept. DATA is answered only
once the receive gate is free, and PONG is checked against the PING under way, so these two are
stated apart.
-/

namespace Alighieri.Rdp
open Net Lts Dialogue Endpoint Session

variable {σ : Type} {caps : Caps} {e e' : Endpoint σ} {f : Frame} {rest : List Frame}

/- What `handle_client_frame` and `handle_agent_frame` do alike. -/
structure Endpoint.Untroubled {σ : Type} (e : Endpoint σ) : Prop where
  pong : e.ready = true → ∀ nonce rest, e.frames = .pong nonce :: rest → e.ping = some nonce
  push : e.ended = none → ∀ id payload s, e.await = .creditGate id payload →
    e.live.lookup id = some s → s.receiveGateFree = true → ∃ s', s.pushInbound payload = .ok s'

structure Client.Untroubled (limits : NegotiatedLimits) (c : Client) : Prop where
  ep : c.ep.Untroubled
  command : c.ep.ready = true → ∀ cmd rest, c.commands = cmd :: rest →
    ∃ r, handleClientCommand (decide (limits.maxStreams ≤ c.ep.streams.size))
      (c.ep.entry (Client.commandId cmd)) cmd = .ok r
  frame : c.ep.ready = true → ∀ f rest, c.ep.frames = f :: rest → f.lane ≠ none → ∀ alive,
    ∃ r, handleClientFrame limits alive (c.ep.entry f.streamId) f = .ok r

structure Agent.Untroubled (limits : NegotiatedLimits) (policy : AgentPolicy) (a : Agent) :
    Prop where
  ep : a.ep.Untroubled
  frame : a.ep.ready = true → ∀ f rest, a.ep.frames = f :: rest → f.lane ≠ none →
    ∃ r, handleAgentFrame (a.view limits policy) (a.ep.entry f.streamId) f = .ok r
  finish : a.ep.ready = true → ∀ op ∈ a.operations, ∀ answer done,
    op.finish policy answer = some done → ∃ r, finishAgentOperation (a.ep.entry op.id) done = .ok r

/- A session that has not ended, or not for a protocol error. -/
def Endpoint.Peaceful {σ : Type} (e : Endpoint σ) : Prop :=
  ∀ error, e.ended = some error → error.isProtocol = false

section Handlers

variable {limits : NegotiatedLimits}

theorem handleClientCommand_ok {full : Bool} {x : Entry ClientStreamState} {cmd : ClientCommand}
    (hnew : Client.creates cmd = true → x.state = none ∧ Client.commandId cmd % 2 = 1)
    (hv : cmd.Valid) : ∃ r, handleClientCommand full x cmd = .ok r := by
  obtain ⟨state, stream⟩ := x
  cases cmd with
  | resolve id =>
    obtain ⟨hst, hodd⟩ := hnew rfl
    have hodd' : id % 2 = 1 := hodd
    cases hst
    have hpos : id ≠ 0 := by omega
    have hvalid := resolve_valid hpos hv
    simp only [handleClientCommand, validateLocalStreamId_odd hodd', hvalid]
    cases full <;> exact ⟨_, rfl⟩
  | openTo id address =>
    cases state with
    | none => exact ⟨_, rfl⟩
    | some st =>
      cases st with
      | resolved candidates =>
        by_cases hmem : address ∈ candidates
        · exact ⟨_, if_pos hmem⟩
        · exact ⟨_, if_neg hmem⟩
      | _ => exact ⟨_, rfl⟩
  | openIp id =>
    obtain ⟨hst, hodd⟩ := hnew rfl
    have hodd' : id % 2 = 1 := hodd
    cases hst
    simp only [handleClientCommand, validateLocalStreamId_odd hodd']
    cases full <;> exact ⟨_, rfl⟩
  | close id =>
    cases state with
    | none => exact ⟨_, rfl⟩
    | some st => cases st <;> exact ⟨_, rfl⟩

end Handlers

theorem Frame.lane_of_ne (h : f.lane ≠ none) : f.lane = some f.streamId :=
  Frame.lane_streamId (fun _ hf => h (by rw [hf]; rfl)) (fun _ hf => h (by rw [hf]; rfl))

theorem Endpoint.incoming_head (hf : e.frames = f :: rest) (hl : f.lane ≠ none) :
    e.incoming f.streamId = f :: onLane f.streamId (rest ++ e.reader.toList) := by
  rw [Endpoint.incoming, hf, List.cons_append, onLane_cons_self (Frame.lane_of_ne hl)]

namespace Session

variable {u : Setup} {s t : Session}

theorem Conforms.client_untroubled (h : s.Conforms u) : s.client.Untroubled u.limits := by
  have hsides := h.client.sound.sides
  refine ⟨⟨?_, ?_⟩, ?_, ?_⟩
  · intro _ nonce rest hf
    exact h.clientPings.answers hf
  · intro hend id payload str ha hs hg
    exact (hsides id).fits (h.lanes id).falling payload str (by simp [Client.side, side, hend])
      (by simp [Client.side, side, ha, Await.on]) hs hg
  · intro _ cmd rest hc
    have hbook := h.client.sound.orderly.book
    refine handleClientCommand_ok ?_ (hbook.valid cmd (by rw [hc]; exact List.mem_cons_self))
    intro hcr
    have hmem : Client.commandId cmd ∈ s.client.creating := by simp [Client.creating, hc, hcr]
    obtain ⟨hlt, -, hodd⟩ := hbook.fresh _ hmem
    refine ⟨((hsides (Client.commandId cmd)).fresh ?_).1, hodd⟩
    show (Client.commandId cmd).ble s.client.started = false
    rw [← Bool.not_eq_true, Nat.ble_eq]
    omega
  · intro hready f rest hf hl alive
    obtain ⟨hrun, hnow⟩ := side_ready hready (f.streamId.ble s.client.started) f.streamId
    have hdown : (s.lane f.streamId).down = f :: (onLane f.streamId (rest ++ s.client.ep.reader.toList) ++
        onLane f.streamId s.down ++ s.agent.ep.outgoing f.streamId) := by
      simp only [lane, incoming_head hf hl, List.cons_append]
    exact (h.lanes f.streamId).client_frame (hsides _) hrun hnow hdown (Frame.lane_of_ne hl) alive

theorem Conforms.agent_untroubled (h : s.Conforms u) : s.agent.Untroubled u.limits u.policy := by
  obtain ⟨run, hagent⟩ := h.agent
  have hsides := hagent.sound.sides
  refine ⟨⟨?_, ?_⟩, ?_, ?_⟩
  · intro _ nonce rest hf
    exact h.agentPings.answers hf
  · intro hend id payload str ha hs hg
    exact (hsides id).fits (h.lanes id).rising payload str (by simp [Agent.side, side, hend])
      (by simp [Agent.side, side, ha, Await.on]) hs hg
  · intro hready f rest hf hl
    obtain ⟨hrun, hnow⟩ := side_ready hready (f.streamId.ble s.agent.highest) f.streamId
    have hup : (s.lane f.streamId).up = f :: (onLane f.streamId (rest ++ s.agent.ep.reader.toList) ++
        onLane f.streamId s.up ++ s.client.ep.outgoing f.streamId) := by
      simp only [lane, incoming_head hf hl, List.cons_append]
    exact (h.lanes f.streamId).agent_frame (hsides _) hrun hnow hup (Frame.lane_of_ne hl)
      (v := s.agent.view u.limits u.policy) rfl rfl
  · intro _ op hop answer done hd
    obtain ⟨x', await, hok, -⟩ := finish_fits (x := s.agent.ep.entry op.id) (h.book.fits op hop) hd
    exact ⟨_, hok⟩

end Session

/- An end whose handlers accept everything ends for other reasons only. -/

theorem Endpoint.Peaceful.same (h : e.Peaceful) (hend : e'.ended = e.ended) : e'.Peaceful := by
  intro error he
  rw [hend] at he
  exact h error he

theorem Endpoint.Peaceful.onPong (h : e.Peaceful) {nonce : ℕ} (hp : e.ping = some nonce) :
    (({ e with frames := rest } : Endpoint σ).onPong nonce).Peaceful := by
  rw [Endpoint.onPong, if_pos hp]
  exact h

theorem Endpoint.Peaceful.resume {next : Next} (h : e.Peaceful) (hu : e.Untroubled)
    (hr : e.resume caps = some (e', next)) : e'.Peaceful := by
  obtain ⟨hend, hcase⟩ := resume_cases hr
  cases hcase with
  | refused ha hs hg hp =>
    obtain ⟨s', hok⟩ := hu.push hend _ _ _ ha hs hg
    rw [hp] at hok
    cases hok
  | _ => exact h

theorem Endpoint.Peaceful.turn {limits : NegotiatedLimits} {fs : List Frame} (h : e.Peaceful)
    (hu : e.Untroubled) (ht : e.Turn limits caps fs e') : e'.Peaceful := by
  cases ht with
  | stream hs =>
    obtain ⟨s, s', eff, r, -, -, -, rfl⟩ := streamStep_cases hs
    exact h
  | pick hp =>
    obtain ⟨-, -, ⟨f, cs, -, rfl⟩ | ⟨f, os, -, rfl⟩⟩ := pick_cases hp
    · exact h
    · exact h
  | deliver hd =>
    obtain ⟨f, -, -, rfl⟩ := deliver_cases hd
    exact h
  | keepalive hk =>
    obtain ⟨-, -, rfl | ⟨-, rfl⟩⟩ := keepalive_cases hk
    · exact h
    · exact h
  | ping | teardown => exact h
  | pong hready hf => exact h.onPong (hu.pong hready _ _ hf)
  | resume hr => exact h.resume hu hr
  | pinged hr => exact (h.resume hu hr).same rfl
  | fail hend hp =>
    intro error he
    cases he
    exact hp

theorem Client.step_peaceful {limits : NegotiatedLimits} {c c' : Client} {act : ClientAct}
    (hp : c.ep.Peaceful) (hu : c.Untroubled limits) (h : c.step limits caps act = some c') :
    c'.ep.Peaceful := by
  cases Client.step_cases h with
  | turn hact ht => exact hp.turn hu.ep ht
  | command hready hc =>
    obtain ⟨r, hr⟩ := hu.command hready _ _ hc
    rw [hr]
    exact hp
  | frame hready hf hping hpong =>
    rename_i alive f rest
    have hl : f.lane ≠ none := by rw [Frame.lane_streamId hping hpong]; simp
    obtain ⟨r, hr⟩ := hu.frame hready f rest hf hl alive
    rw [hr]
    exact hp
  | resume hr hn => exact hp.resume hu.ep hr
  | _ => exact hp

theorem Agent.step_peaceful {limits : NegotiatedLimits} {policy : AgentPolicy} {a a' : Agent}
    {act : AgentAct} (hp : a.ep.Peaceful) (hu : a.Untroubled limits policy)
    (h : a.step limits policy caps act = some a') : a'.ep.Peaceful := by
  cases Agent.step_cases h with
  | turn ht => exact hp.turn hu.ep ht
  | frame hready hf hping hpong =>
    rename_i f rest
    have hl : f.lane ≠ none := by rw [Frame.lane_streamId hping hpong]; simp
    obtain ⟨r, hr⟩ := hu.frame hready f rest hf hl
    rw [hr]
    exact hp
  | event | finish | joinRelay => exact hp
  | finishError hready hop hd herr =>
    obtain ⟨r, hr⟩ := hu.finish hready _ (List.mem_of_getElem? hop) _ _ hd
    rw [herr] at hr
    cases hr
  | resolved hr | opened hr => exact (hp.resume hu.ep hr).same rfl

namespace Session

theorem peaceful {u : Setup} {s : Session} (h : Reachable (step u) start s) :
    s.client.ep.Peaceful ∧ s.agent.ep.Peaceful := by
  have hinv : s.Conforms u ∧ s.client.ep.Peaceful ∧ s.agent.ep.Peaceful := by
    refine h.invariant (P := fun s => s.Conforms u ∧ s.client.ep.Peaceful ∧ s.agent.ep.Peaceful)
      ⟨.start u, fun _ he => (by cases he), fun _ he => (by cases he)⟩ ?_
    rintro s act t ⟨hc, hpc, hpa⟩ hs
    refine ⟨hc.step hs, ?_⟩
    have hm := step_move hs
    cases hm with
    | client hstep => exact ⟨Client.step_peaceful hpc hc.client_untroubled hstep, hpa⟩
    | agent hstep => exact ⟨hpc, Agent.step_peaceful hpa hc.agent_untroubled hstep⟩
    | sendUp | recvUp | sendDown | recvDown =>
      exact ⟨hpc, hpa⟩
  exact hinv.2

end Session

/-- In every state that two conforming ends reach no handler of either end returns an error, and
neither end has ended for a protocol error. -/
theorem conforming_ends_never_err (u : Setup) {s : Session}
    (h : Reachable (step u) start s) :
    s.client.Untroubled u.limits ∧ s.agent.Untroubled u.limits u.policy ∧
      s.client.ep.Peaceful ∧ s.agent.ep.Peaceful := by
  have hc := Session.Conforms.reachable h
  exact ⟨hc.client_untroubled, hc.agent_untroubled, peaceful h⟩

theorem conforming_ends_never_err_byte :
    ∃ s, exec (step tightSetup) start (openRun ++ byteRun 1) = some s ∧
      s.client.ep.Peaceful ∧ s.agent.ep.Peaceful := by
  obtain ⟨s, hs⟩ : ∃ s, exec (step tightSetup) start (openRun ++ byteRun 1) = some s :=
    ⟨_, rfl⟩
  exact ⟨s, hs, (conforming_ends_never_err tightSetup (reachable_exec _ (.start _) hs)).2.2⟩

end Alighieri.Rdp
