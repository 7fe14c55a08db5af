import Alighieri.Rdp.Session

/-!
# The order in which streams are announced (mux.rs:1450-1595, 2008-2110, 2366-2376)

A client announces a stream with its first frame, RESOLVE or OPEN. The identifiers on their way
that are new to the agent rise. An OPEN that follows RESOLVE_OK names one the agent knows.
-/

namespace Alighieri.Rdp
open Net List Queues Client Endpoint

variable {f : Frame} {limits : NegotiatedLimits} {caps : Caps}

abbrev announced (fs : List Frame) : List ℕ := fs.filterMap Frame.registers

theorem announced_none {fs : List Frame} (h : ∀ f ∈ fs, f.registers = none) : announced fs = [] :=
  filterMap_eq_nil_iff.mpr h

theorem Frame.registers_lane (h : f.lane = none) : f.registers = none := by
  cases f with
  | ping | pong => rfl
  | _ => cases h

theorem Frame.lane_of_registers {id : ℕ} (h : f.registers = some id) : f.lane = some id := by
  cases f with
  | resolve | openTo =>
    cases h
    rfl
  | _ => cases h

namespace Queues

/- What an end has still to put on the wire, and what it has still to handle. -/
def announcing (q : Queues) : List ℕ := announced (q.writer.toList ++ q.ordered ++ q.await.hand)

def hearing (q : Queues) : List ℕ := announced (q.frames ++ q.reader.toList)

end Queues

section

variable {P : ℕ → Await → Prop} {q q' : Queues}

theorem QueueMove.announcing (hP : ∀ i a, P i a → a.registers = []) (ht : q.Tidy)
    (h : QueueMove P q q') : q'.announcing = q.announcing := by
  have hhand : ∀ a : Await, announced a.hand = a.registers := fun _ => rfl
  have hidle : Await.idle.registers = [] := rfl
  cases h with
  | worked fs hfs =>
    simp [announcing, announced_none fun f hf => (hfs f hf).2]
  | pickControl hw hc =>
    rename_i f cs
    have hnone := Frame.registers_lane (ht.control f (by rw [hc]; exact mem_cons_self))
    simp [announcing, hw, hnone]
  | pickOrdered hw ho => simp [announcing, hw, ho]
  | called hrun hi ha | handled hrun hi hf hl ha =>
    simp [announcing, hhand, hi, hidle, hP _ _ ha]
  | pinged hi | ticked n hi => simp [announcing, hi, Await.hand]
  | queued ha | ponging ha | pinging ha | closed ha => simp [announcing, ha, Await.hand]
  | gated hh hc ha =>
    have hnone : q.announcing = announced (q.writer.toList ++ q.ordered) := by
      simp only [announcing, hh, append_nil]
    rw [hnone]
    rcases ha with rfl | ⟨i, reason, rfl⟩
    · simp [announcing, Await.hand]
    · simp [announcing, Await.hand, Frame.registers]
  | _ => rfl

theorem QueueMove.hearing (h : QueueMove P q q') : q'.hearing.Sublist q.hearing := by
  have hfront : ∀ {f : Frame} {rest : List Frame}, q.frames = f :: rest → q'.frames = rest →
      q'.reader = q.reader → q'.hearing.Sublist q.hearing := by
    intro f rest hf hf' hr
    simp only [Queues.hearing, hf, hf', hr, cons_append, filterMap_cons_toList]
    exact sublist_append_right _ _
  cases h with
  | delivered hr => simp [hearing, hr]
  | handled hrun hi hf hl ha | rejected error hrun hf hl | pinged hi hf | ponged hf hp
  | mismatched error hf hp => exact hfront hf rfl rfl
  | _ => exact List.Sublist.refl _

end

theorem Client.step_started {c c' : Client} {act : ClientAct} (hcmd : act ≠ .command)
    (h : c.step limits caps act = some c') : c'.started = c.started := by
  cases step_cases h with
  | command => exact absurd rfl hcmd
  | frame => exact (settle_commands _ _ _).2.2
  | _ => rfl

theorem Client.step_announces {c c' : Client} {act : ClientAct} (ho : c.Orderly)
    (h : c.step limits caps act = some c') :
    (c'.ep.queues.announcing = c.ep.queues.announcing ∧ c.started ≤ c'.started) ∨
    ∃ i, c'.ep.queues.announcing = c.ep.queues.announcing ++ [i] ∧
      ((c.started < i ∧ c'.started = i) ∨
        (c'.started = c.started ∧ ∃ candidates, c.ep.streams.lookup i = some (.resolved candidates))) := by
  by_cases hcmd : act = .command
  · subst hcmd
    obtain ⟨hready, h⟩ := Option.ite_none_right_eq_some.mp h
    obtain ⟨hrun, hidle⟩ := ready_iff.mp hready
    split at h
    · cases h
    rename_i cmd rest hcommands
    cases h
    have hnew : creates cmd = true → c.started < commandId cmd := by
      intro hcr
      refine (ho.book.fresh _ ?_).1
      simp only [creating, hcommands, filter_cons, hcr, if_true, map_cons]
      exact mem_cons_self
    have hle : c.started ≤ if creates cmd then commandId cmd else c.started := by
      split
      · rename_i hcr
        exact Nat.le_of_lt (hnew hcr)
      · exact Nat.le_refl _
    have hbefore : c.ep.queues.announcing = announced (c.ep.writer.toList ++ c.ep.ordered) := by
      simp [announcing, queues, hidle, Await.hand]
    cases hr : handleClientCommand (decide (limits.maxStreams ≤ c.ep.streams.size))
      (c.ep.entry (commandId cmd)) cmd with
    | error e =>
      refine .inl ⟨?_, hle⟩
      simp [announcing, queues, settle, fail]
    | ok r =>
      have hafter : (settle { c with
          commands := rest
          started := if creates cmd then commandId cmd else c.started }
            (commandId cmd) (.ok r)).ep.queues.announcing =
          c.ep.queues.announcing ++ announced r.await.hand := by
        rw [hbefore]
        simp [announcing, queues, settle, setEntry]
      have hcase := handleClientCommand_case hr
      cases hcase with
      | keep | closeOpened | closeEarly =>
        exact .inl ⟨by rw [hafter]; exact append_nil _, hle⟩
      | resolve | openIp => exact .inr ⟨_, hafter, .inl ⟨hnew rfl, rfl⟩⟩
      | openTo hx => exact .inr ⟨_, hafter, .inr ⟨rfl, _, hx⟩⟩
  · have hq := step_queues ho.tidy h
    have hP : ∀ i a, act.Leaves i a → a.registers = [] := fun i a hl => hl.2.resolve_left hcmd
    exact .inl ⟨hq.announcing hP ho.tidy, Nat.le_of_eq (step_started hcmd h).symm⟩

theorem AgentFrameCase.raises {v : AgentView} {x : Entry AgentStreamState} {r : AgentHandled}
    (h : AgentFrameCase v x r f) :
    r.highest = v.highest ∨ (f.registers = some r.highest ∧ v.highest < r.highest) := by
  cases h with
  | refusedNew code diagnostic hf hx hnew =>
    rcases hf with ⟨port, hostname, rfl⟩ | ⟨address, rfl⟩
    · exact .inr ⟨rfl, hnew⟩
    · exact .inr ⟨rfl, hnew⟩
  | resolve hx hnew | connectNew hx hnew => exact .inr ⟨rfl, hnew⟩
  | _ => exact .inl rfl

theorem Agent.step_raises {policy : AgentPolicy} {a a' : Agent} {act : AgentAct}
    (h : a.step limits policy caps act = some a') :
    a'.highest = a.highest ∨ ∃ f, a.ep.frames = f :: a'.ep.frames ∧ a'.ep.reader = a.ep.reader ∧
      f.registers = some a'.highest ∧ a.highest < a'.highest := by
  cases Agent.step_cases h with
  | frame hready hf hping hpong =>
    rename_i f rest
    cases hr : handleAgentFrame (a.view limits policy) (a.ep.entry f.streamId) f with
    | ok r =>
      rcases (handleAgentFrame_case hr).raises with hsame | ⟨hreg, hlt⟩
      · exact .inl hsame
      · exact .inr ⟨f, hf, rfl, hreg, hlt⟩
    | error => exact .inl rfl
  | _ => exact .inl rfl

namespace Session

/- The identifiers on their way to the agent, those it comes to first at the head. -/
def registering (s : Session) : List ℕ :=
  s.agent.ep.queues.hearing ++ announced s.up ++ s.client.ep.queues.announcing

/-- Among the identifiers on their way those that are new to the agent rise, and the client
has handled a command for each of them. -/
structure Ordered (s : Session) : Prop where
  rising : (s.registering.filter fun i => decide (s.agent.highest < i)).Pairwise (· < ·)
  started : ∀ i ∈ s.registering, i ≤ s.client.started

theorem Ordered.start : Session.start.Ordered := ⟨List.Pairwise.nil, fun _ hi => by cases hi⟩

variable {u : Setup} {s t : Session}

theorem Ordered.thin (h : s.Ordered) (hsub : t.registering.Sublist s.registering)
    (hhi : s.agent.highest ≤ t.agent.highest) (hst : s.client.started ≤ t.client.started) :
    t.Ordered := by
  refine ⟨?_, fun i hi => Nat.le_trans (h.started i (hsub.subset hi)) hst⟩
  have hfilter : (t.registering.filter fun i => decide (t.agent.highest < i)).Sublist
      (s.registering.filter fun i => decide (s.agent.highest < i)) := by
    have hless : (t.registering.filter fun i => decide (t.agent.highest < i)).Sublist
        (t.registering.filter fun i => decide (s.agent.highest < i)) := by
      refine monotone_filter_right _ fun i hi => ?_
      simp only [decide_eq_true_eq] at hi ⊢
      omega
    exact hless.trans (hsub.filter _)
  exact h.rising.sublist hfilter

theorem Ordered.announce (h : s.Ordered) {i : ℕ} (hreg : t.registering = s.registering ++ [i])
    (hhi : t.agent.highest = s.agent.highest)
    (hi : (s.client.started < i ∧ t.client.started = i) ∨
      (t.client.started = s.client.started ∧ i ≤ s.client.started ∧ i ≤ s.agent.highest)) :
    t.Ordered := by
  refine ⟨?_, fun j hj => ?_⟩
  · rw [hreg, hhi, filter_append, pairwise_append]
    refine ⟨h.rising, List.Pairwise.filter _ (pairwise_singleton _ _), fun j hj k hk => ?_⟩
    obtain ⟨hjm, -⟩ := mem_filter.mp hj
    obtain ⟨hkm, hkn⟩ := mem_filter.mp hk
    have hle := h.started j hjm
    rw [mem_singleton.mp hkm] at hkn ⊢
    rw [decide_eq_true_eq] at hkn
    omega
  · rw [hreg] at hj
    rcases mem_append.mp hj with hj | hj
    · have hle := h.started j hj
      omega
    · rw [mem_singleton.mp hj]
      omega

theorem Ordered.passes (h : s.Ordered) {rest : List Frame} {i j : ℕ}
    (hf : s.agent.ep.frames = f :: rest) (hreg : f.registers = some j)
    (hlow : s.agent.highest < i) (hlt : i < j) : i ≤ s.client.started ∧ i ∉ s.registering := by
  have hcons : ∃ tail, s.registering = j :: tail := by
    refine ⟨announced (rest ++ s.agent.ep.reader.toList) ++ announced s.up ++
      s.client.ep.queues.announcing, ?_⟩
    have hhear : s.agent.ep.queues.hearing = j :: announced (rest ++ s.agent.ep.reader.toList) := by
      show announced (s.agent.ep.frames ++ s.agent.ep.reader.toList) = _
      rw [hf, cons_append, announced, filterMap_cons_toList, hreg]
      rfl
    rw [registering, hhear]
    rfl
  obtain ⟨tail, htail⟩ := hcons
  have hj : j ≤ s.client.started := h.started j (by rw [htail]; exact mem_cons_self)
  refine ⟨by omega, fun hi => ?_⟩
  rw [htail] at hi
  have hrise := h.rising
  rw [htail, filter_cons, if_pos (by simp; omega)] at hrise
  rcases mem_cons.mp hi with hi | hi
  · omega
  · have hless := (pairwise_cons.mp hrise).1 i (mem_filter.mpr ⟨hi, by simpa using hlow⟩)
    omega

theorem Ordered.step {act : SessionAct} (h : s.Ordered) (hc : s.client.Orderly)
    (ha : s.agent.Orderly)
    (hres : ∀ i candidates, s.client.ep.streams.lookup i = some (.resolved candidates) →
      i ≤ s.client.started ∧ i ≤ s.agent.highest)
    (hs : s.step u act = some t) : t.Ordered := by
  have hmove := step_move hs
  cases hmove with
  | client hstep =>
    rcases step_announces hc hstep with ⟨hsame, hle⟩ | ⟨i, hnew, hi⟩
    · refine h.thin ?_ (Nat.le_refl _) hle
      rw [registering, registering, hsame]
    · refine h.announce ?_ rfl ?_ (i := i)
      · rw [registering, registering, hnew, ← append_assoc]
      · rcases hi with hi | ⟨hst, candidates, hlook⟩
        · exact .inl hi
        · exact .inr ⟨hst, hres i candidates hlook⟩
  | agent hstep =>
    rename_i b
    have hq := Agent.step_queues ha.tidy hstep
    have hle : s.agent.highest ≤ b.highest := by
      rcases Agent.step_raises hstep with hsame | ⟨f, -, -, -, hlt⟩
      · exact Nat.le_of_eq hsame.symm
      · exact Nat.le_of_lt hlt
    refine h.thin ?_ hle (Nat.le_refl _)
    exact (hq.hearing.append_right _).append_right _
  | sendUp hend hw =>
    refine h.thin ?_ (Nat.le_refl _) (Nat.le_refl _)
    simp [registering, announcing, queues, hw]
  | recvUp hend hup hr =>
    refine h.thin ?_ (Nat.le_refl _) (Nat.le_refl _)
    simp [registering, hearing, queues, hup, hr]
  | sendDown | recvDown =>
    exact h.thin (List.Sublist.refl _) (Nat.le_refl _) (Nat.le_refl _)

end Session

end Alighieri.Rdp
