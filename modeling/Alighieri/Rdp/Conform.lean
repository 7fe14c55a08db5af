import Alighieri.Rdp.LaneMoves
import Alighieri.Rdp.Keepalive
import Alighieri.Rdp.Order
import Alighieri.Rdp.Outgoing

/-!
# Two conforming ends (mux.rs:1352-1835, 1837-2366)

The invariant of a session: every stream is in agreement between its two ends, the identifiers on
their way rise, and the pings of both ends are accounted for.
-/

namespace Alighieri.Rdp
open Net Lts Dialogue List Endpoint

variable {inp out : List Frame} {b : Agent} {act : SessionAct}

theorem Stream.hand_registers {id : ℕ} {s : Stream} : ∀ f ∈ s.hand id, f.registers = none := by
  intro f hf
  rcases mem_append.mp hf with hf | hf
  · cases hat : s.outPc <;> rw [hat] at hf <;> cases hf <;> first | rfl | contradiction
  · cases hat : s.creditPc <;> rw [hat] at hf <;> cases hf <;> first | rfl | contradiction

theorem Await.hand_on {id : ℕ} {a : Await} {f : Frame} (hf : f ∈ (a.on id).hand) :
    f ∈ a.hand ∧ f.lane = some id := by
  cases a with
  | ordered g =>
    by_cases hl : g.lane = some id
    · simp only [Await.on, if_pos hl, Await.hand, mem_singleton] at hf ⊢
      exact ⟨hf, by rw [hf]; exact hl⟩
    · rw [Await.on, if_neg hl] at hf
      cases hf
  | closeSend i =>
    by_cases hi : i = id
    · simp only [Await.on, if_pos hi, Await.hand, mem_singleton] at hf ⊢
      exact ⟨hf, by rw [hf, ← hi]; rfl⟩
    · rw [Await.on, if_neg hi] at hf
      cases hf
  | closeGate i | creditGate i =>
    by_cases hi : i = id <;> simp [Await.on, hi, Await.hand] at hf
  | _ => cases hf

theorem AgentLeaves.about {i : ℕ} {a : Await} (h : AgentLeaves i a) : a.About i := by
  rcases h with h | h
  · exact h.1.1
  · exact h.about

def SessionAct.isWire : SessionAct → Bool
  | .client _ | .agent _ => false
  | _ => true

namespace Session

def lane (s : Session) (id : ℕ) : Lane where
  client := s.client.side id
  agent := s.agent.side id
  ops := s.agent.ops id
  up := s.agent.ep.incoming id ++ onLane id s.up ++ s.client.ep.outgoing id
  down := s.client.ep.incoming id ++ onLane id s.down ++ s.agent.ep.outgoing id

/-- The invariant of a session of two conforming ends. -/
structure Conforms (u : Setup) (s : Session) : Prop where
  client : s.client.Spoken u.limits
  agent : ∃ run, s.agent.Spoken u.limits run
  book : AgentBook u.limits s.agent
  ordered : s.Ordered
  lanes : ∀ id, (s.lane id).Conforms u.limits id
  clientPings : Keepalive s.client.ep.queues s.agent.ep.queues s.up s.down
  agentPings : Keepalive s.agent.ep.queues s.client.ep.queues s.down s.up

end Session

theorem Lane.Conforms.start (limits : NegotiatedLimits) (id : ℕ) :
    (Session.start.lane id).Conforms limits id := by
  refine ⟨?_, Conduit.fresh .nil .nil, Conduit.fresh .nil .nil, ?_, ?_, ?_, ?_, ?_⟩
  · cases id with
    | zero => exact .talk (.passed true)
    | succ n => exact .talk .fresh
  · exact fun port hst => by cases hst
  · exact fun port hst => by cases hst
  · exact fun port hst => by cases hst
  · exact fun _ => rfl
  · exact fun _ => ⟨rfl, rfl, rfl, rfl⟩

namespace Session

variable {u : Setup} {s t : Session} {id : ℕ}

theorem Conforms.start (u : Setup) : Session.start.Conforms u where
  client := .start _
  agent := ⟨[], .start _⟩
  book := .start _
  ordered := .start
  lanes := .start _
  clientPings := ⟨rfl, fun _ hn => by cases hn⟩
  agentPings := ⟨rfl, fun _ hn => by cases hn⟩

theorem lane_client {c : Client} (h : Endpoint.Flows id s.client.ep c.ep inp out) :
    (s.lane id).down = inp ++ (lane { s with client := c } id).down ∧
    lane { s with client := c } id = { s.lane id with
      client := c.side id
      up := (s.lane id).up ++ out
      down := (lane { s with client := c } id).down } := by
  constructor
  · simp only [lane, h.incoming, append_assoc]
  · simp only [lane, h.outgoing, append_assoc]

theorem lane_agent (h : Endpoint.Flows id s.agent.ep b.ep inp out) :
    (s.lane id).up = inp ++ (lane { s with agent := b } id).up ∧
    lane { s with agent := b } id = { s.lane id with
      agent := b.side id
      ops := b.ops id
      up := (lane { s with agent := b } id).up
      down := (s.lane id).down ++ out } := by
  constructor
  · simp only [lane, h.incoming, append_assoc]
  · simp only [lane, h.outgoing, append_assoc]

theorem lane_wire (h : Move u s act t) (hwire : act.isWire = true) (id : ℕ) :
    t.lane id = s.lane id := by
  have hcons : ∀ (f : Frame) (fs : List Frame), onLane id [f] ++ onLane id fs = onLane id (f :: fs) :=
    fun f fs => (onLane_append id [f] fs).symm
  cases h with
  | client h | agent h => cases hwire
  | sendUp hend hw =>
    simp [lane, Client.side, side, incoming, outgoing, hw, hcons]
  | recvUp hend hup hr =>
    rename_i f rest
    simp [lane, Agent.side, Agent.ops, side, incoming, outgoing, hup, hr]
    rw [← hcons f rest, append_assoc]
  | sendDown hend hw =>
    simp [lane, Agent.side, Agent.ops, side, incoming, outgoing, hw, hcons]
  | recvDown hend hdown hr =>
    rename_i f rest
    simp [lane, Client.side, side, incoming, outgoing, hdown, hr]
    rw [← hcons f rest, append_assoc]

theorem Conforms.resolved (h : s.Conforms u) {i : ℕ} {candidates : List SocketAddr}
    (hst : s.client.ep.streams.lookup i = some (.resolved candidates)) :
    i ≤ s.client.started ∧ i ≤ s.agent.highest := by
  have hphase := (h.lanes i).phase
  have hmode : (s.client.side i).mode = .resolved := by
    rw [Side.mode_some hst]
    rfl
  have hmode' : (s.lane i).client.mode = .resolved := hmode
  rw [hmode'] at hphase
  obtain ⟨-, hkc, hka, -, -⟩ := hphase.client_resolved
  exact ⟨Nat.ble_eq.mp hkc, Nat.ble_eq.mp hka⟩

theorem lane_registers {f : Frame} (hnone : id ∉ s.registering)
    (hf : f ∈ (s.lane id).up ++ (s.lane id).client.hand id) : f.registers = none := by
  have hway : f ∈ s.agent.ep.frames ++ s.agent.ep.reader.toList ++ s.up ++
      (s.client.ep.writer.toList ++ s.client.ep.ordered ++ s.client.ep.await.hand) →
      f.lane = some id → f.registers = none := by
    intro hm hl
    cases hreg : f.registers with
    | none => rfl
    | some j =>
      have hj := Frame.lane_of_registers hreg
      rw [hl] at hj
      cases hj
      refine absurd ?_ hnone
      simp only [registering, Queues.hearing, Queues.announcing, ← filterMap_append]
      exact mem_filterMap.mpr ⟨f, hm, hreg⟩
  rcases mem_append.mp hf with hf | hf
  · rw [lane, incoming, outgoing, ← onLane_append, ← onLane_append] at hf
    obtain ⟨hm, hl⟩ := mem_filter.mp hf
    refine hway ?_ (by simpa using hl)
    rw [← append_assoc]
    exact mem_append_left _ hm
  · rcases mem_append.mp hf with hf | hf
    · cases hs : (s.lane id).client.stream with
      | none =>
        rw [hs] at hf
        cases hf
      | some str =>
        rw [hs] at hf
        exact Stream.hand_registers f hf
    · obtain ⟨hm, hl⟩ := Await.hand_on hf
      exact hway (mem_append_right _ (mem_append_right _ hm)) hl

theorem Conforms.passed (h : s.Conforms u) {act : AgentAct}
    (hstep : s.agent.step u.limits u.policy u.agent act = some b)
    (hflow : Endpoint.Flows id s.agent.ep b.ep inp out) (hk : (s.agent.side id).known = false)
    (hk' : (b.side id).known = true) (hinp : inp = []) :
    (s.lane id).client.known = true ∧
      ∀ f ∈ (s.lane id).up ++ (s.lane id).client.hand id, f.registers = none := by
  have hlow : s.agent.highest < id := by
    have hble : id.ble s.agent.highest = false := hk
    rw [← Bool.not_eq_true, Nat.ble_eq] at hble
    omega
  have hhigh : id ≤ b.highest := Nat.ble_eq.mp hk'
  rcases Agent.step_raises hstep with hsame | ⟨f, hf, hr, hreg, hlt⟩
  · omega
  · have hne : id ≠ b.highest := by
      rintro rfl
      -- the frame that announces the stream itself is heard on its lane
      have hin := hflow.incoming
      have hl := Frame.lane_of_registers hreg
      rw [hinp, nil_append, incoming, incoming, hf, hr, cons_append,
        onLane_cons_self hl] at hin
      exact absurd (congrArg List.length hin) (by simp)
    obtain ⟨hst, hnone⟩ := h.ordered.passes hf hreg hlow (by omega)
    exact ⟨Nat.ble_eq.mpr hst, fun g hg => lane_registers hnone hg⟩

theorem Conforms.lanes_step (h : s.Conforms u) (hm : Move u s act t) (id : ℕ) :
    (t.lane id).Conforms u.limits id := by
  obtain ⟨run, hagent⟩ := h.agent
  have hwire : act.isWire = true → t.lane id = s.lane id := fun hw => lane_wire hm hw id
  cases hm with
  | client hstep =>
    obtain ⟨inp, out, hmove, hflow⟩ := Client.step_side h.client.sound.orderly hstep id
    obtain ⟨hdown, hlane⟩ := lane_client hflow
    obtain ⟨closes, hsaid⟩ := h.client.said id
    rw [hlane]
    exact (h.lanes id).client_move (h.client.sound.sides id) hsaid.toPoised hmove hdown
  | agent hstep =>
    obtain ⟨inp, out, hmove, hflow⟩ := Agent.step_side hagent.sound.orderly hstep id
    obtain ⟨hup, hlane⟩ := lane_agent hflow
    obtain ⟨closes, hsaid, -⟩ := hagent.said id
    rw [hlane]
    exact (h.lanes id).agent_move (hagent.sound.sides id) hsaid.toPoised hmove hup
      (h.passed hstep hflow)
  | sendUp | recvUp | sendDown | recvDown =>
    exact hwire rfl ▸ h.lanes id

theorem Conforms.agent_wire (h : s.Conforms u) {act : PeerAct AgentAct}
    (hm : s.agent.meet u.limits u.policy u.agent act = some b) :
    (∃ run, b.Spoken u.limits run) ∧ AgentBook u.limits b := by
  obtain ⟨run, hagent⟩ := h.agent
  exact ⟨⟨_, hagent.meet hm⟩, h.book.meet hm⟩

theorem Conforms.step (h : s.Conforms u) (hs : s.step u act = some t) : t.Conforms u := by
  obtain ⟨run, hagent⟩ := h.agent
  have htc := h.client.sound.orderly.tidy
  have hta := hagent.sound.orderly.tidy
  have hord := h.ordered.step h.client.sound.orderly hagent.sound.orderly
    (fun i candidates hst => h.resolved hst) hs
  have hm := step_move hs
  have hlanes := h.lanes_step hm
  have hcp := h.clientPings
  have hap := h.agentPings
  have hct := hcp.token
  have hat := hap.token
  cases hm with
  | client hstep =>
    rename_i a c
    have hq := Client.step_queues htc hstep
    have habout : ∀ i w, a.Leaves i w → w.About i := fun _ _ hl => hl.1.1
    have hmeet : s.client.meet u.limits u.client (.own a) = some c := hstep
    exact ⟨h.client.meet hmeet, h.agent, h.book, hord, hlanes, hcp.asker htc habout hq,
      hap.answerer htc habout hq⟩
  | agent hstep =>
    rename_i a b
    have hq := Agent.step_queues hta hstep
    have hmeet : s.agent.meet u.limits u.policy u.agent (.own a) = some b := hstep
    obtain ⟨hspoken, hbook⟩ := h.agent_wire hmeet
    exact ⟨h.client, hspoken, hbook, hord, hlanes, hcp.answerer hta (fun _ _ hl => hl.about) hq,
      hap.asker hta (fun _ _ hl => hl.about) hq⟩
  | sendUp hend hw =>
    refine ⟨⟨h.client.sound.wire _ _, h.client.said⟩, h.agent, h.book, hord, hlanes,
      ⟨?_, hcp.asking⟩, ⟨?_, hap.asking⟩⟩
    · simpa [queues, hw] using hct
    · simpa [queues, hw] using hat
  | recvUp hend hup hr =>
    rename_i f rest
    have hmeet : s.agent.meet u.limits u.policy u.agent (.arrive f) =
        some { s.agent with ep := { s.agent.ep with reader := some f } } := by
      simp [Agent.meet, Agent.lift, arrive, hend, hr]
    obtain ⟨hspoken, hbook⟩ := h.agent_wire hmeet
    refine ⟨h.client, hspoken, hbook, hord, hlanes, ⟨?_, hcp.asking⟩, ⟨?_, hap.asking⟩⟩
    · simpa [queues, hup, hr] using hct
    · simpa [queues, hup, hr] using hat
  | sendDown hend hw =>
    have hmeet : s.agent.meet u.limits u.policy u.agent .depart =
        some { s.agent with ep := { s.agent.ep with writer := none } } := by
      simp [Agent.meet, Agent.lift, depart, hend, hw]
    obtain ⟨hspoken, hbook⟩ := h.agent_wire hmeet
    refine ⟨h.client, hspoken, hbook, hord, hlanes, ⟨?_, hcp.asking⟩, ⟨?_, hap.asking⟩⟩
    · simpa [queues, hw] using hct
    · simpa [queues, hw] using hat
  | recvDown hend hdown hr =>
    refine ⟨⟨h.client.sound.wire _ _, h.client.said⟩, h.agent, h.book, hord, hlanes,
      ⟨?_, hcp.asking⟩, ⟨?_, hap.asking⟩⟩
    · simpa [queues, hdown, hr] using hct
    · simpa [queues, hdown, hr] using hat

theorem Conforms.reachable (h : Reachable (Session.step u) Session.start s) : s.Conforms u :=
  h.invariant (.start u) fun _ _ _ hc hs => hc.step hs

end Session

end Alighieri.Rdp
