import Alighieri.Rdp.Agreement

/-!
# What a session transfers (mux.rs:481-549, 667-730, 807-860, 964-1149)

Bytes and credit of a stream between its two ends, and what the ends know of it once nothing is
under way.
-/

namespace Alighieri.Rdp
open Net Lts Dialogue List Session

variable {gs : List Frame}

/-- `t` has read the beginning of what `s` has accepted, and all of it where a stream that has
not been closed reads its end. -/
structure Stream.Feeds (s t : Stream) : Prop where
  order : t.delivered <+: s.accepted
  complete : ∀ n t', t.pollRead n = (.eof, t') → t.alive = true → t.delivered = s.accepted

theorem Stream.pollRead_eof {t t' : Stream} {n : ℕ} (h : t.pollRead n = (.eof, t')) :
    t.inbound = [] ∧ (t.inboundEof || t.remoteClosed) = true := by
  unfold pollRead at h
  split at h
  · cases h
  split at h
  · cases h
  rename_i hin
  split at h
  · cases h
  split at h
  · rename_i heof
    exact ⟨by simpa using hin, heof⟩
  · cases h

variable {fs : List Frame}

theorem eofNext_done {b : Bool} (h : exec eofNext true fs = some b) :
    dataBytes fs = [] ∧ b = true := by
  induction fs with
  | nil =>
    cases h
    exact ⟨rfl, rfl⟩
  | cons f fs ih =>
    cases f with
    | data | shutdownWrite => cases h
    | _ => exact ih h

/- A stream that neither end has closed is open, and hears the other end. -/
theorem Side.Sound.listens_of_alive {σ : Type} [StreamState σ] [Party σ] {x : Side σ}
    {limits : NegotiatedLimits} {id : ℕ} {s : Stream} (hx : x.Sound limits id)
    (hp : x.Poised id) (hs : x.stream = some s) (ha : s.alive = true) : x.Listens := by
  have hr := (Stream.alive_iff.mp ha).2
  obtain ⟨st, hst, ho⟩ : ∃ st, x.state = some st ∧ StreamState.opened st = true := by
    rcases hx.open_or_gated hp hs ((hx.stream s hs).open_of_alive ha) with ⟨r, hg⟩ | hopen
    · exact absurd hg (hx.no_gate hs hr _ _)
    · exact hopen
  exact Side.listens_opened hst ho hs hr

theorem Conduit.feeds {maxData window : ℕ} {listens engaged : Prop} {s t : Stream}
    (hc : Conduit window listens engaged s t fs gs) (hs : s.Sound maxData window)
    (hl : t.alive = true → listens) : s.Feeds t := by
  refine ⟨((prefix_append _ _).trans hc.order).trans hs.prefixed, fun n t' hread ha => ?_⟩
  obtain ⟨hin, heof⟩ := Stream.pollRead_eof hread
  rw [(Stream.alive_iff.mp ha).2, Bool.or_false] at heof
  have hshut := hc.eof (hl ha)
  rw [heof] at hshut
  obtain ⟨hnone, hall⟩ := eofNext_done hshut
  have hfull := hc.full (hl ha)
  rw [hin, hnone, append_nil, append_nil] at hfull
  exact hfull.trans (hs.complete hall)

theorem Conduit.unread {window : ℕ} {listens engaged : Prop} {s t : Stream}
    (hc : Conduit window listens engaged s t fs gs) (hs : s.drained = []) : t.delivered = [] := by
  have horder := hc.order
  rw [hs, prefix_nil] at horder
  exact (append_eq_nil_iff.mp horder).1

namespace Session

variable {u : Setup} {s : Session} {id : ℕ} {x y : Stream}

theorem Conforms.client_listens (h : s.Conforms u) (hx : s.client.ep.live.lookup id = some x)
    (ha : x.alive = true) : (s.lane id).client.Listens := by
  obtain ⟨closes, hsaid⟩ := h.client.said id
  exact (h.client.sound.sides id).listens_of_alive hsaid.toPoised hx ha

theorem Conforms.agent_listens (h : s.Conforms u) (hy : s.agent.ep.live.lookup id = some y)
    (ha : y.alive = true) : (s.lane id).agent.Listens := by
  obtain ⟨run, hagent⟩ := h.agent
  obtain ⟨closes, hsaid, -⟩ := hagent.said id
  exact (hagent.sound.sides id).listens_of_alive hsaid.toPoised hy ha

end Session

/-- Whatever the ends of a session do, what an end has read of a stream is the beginning of what
the other end has written, and all of that when it reads the end. An end reads nothing while the
other has no stream. -/
theorem bytes_arrive_in_order (u : Setup) {s : Session}
    (h : Reachable (step u) start s) (id : ℕ) :
    (∀ x y, s.client.ep.live.lookup id = some x → s.agent.ep.live.lookup id = some y →
      x.Feeds y ∧ y.Feeds x) ∧
    (∀ x, s.client.ep.live.lookup id = some x → s.agent.ep.live.lookup id = none →
      x.delivered = []) ∧
    ∀ y, s.client.ep.live.lookup id = none → s.agent.ep.live.lookup id = some y →
      y.delivered = [] := by
  have hc := Session.Conforms.reachable h
  have hrise := (hc.lanes id).rising
  have hfall := (hc.lanes id).falling
  refine ⟨fun x y hx hy => ?_, fun x hx hy => ?_, fun y hx hy => ?_⟩
  · obtain ⟨run, hagent⟩ := hc.agent
    have hxs := (hc.client.sound.sides id).stream x hx
    have hys := (hagent.sound.sides id).stream y hy
    rw [Side.live_some (x := (s.lane id).client) hx, Side.live_some (x := (s.lane id).agent) hy]
      at hrise hfall
    exact ⟨hrise.feeds hxs (hc.agent_listens hy), hfall.feeds hys (hc.client_listens hx)⟩
  · rw [Side.live_some (x := (s.lane id).client) hx] at hfall
    exact hfall.unread (Side.live_none (x := (s.lane id).agent) hy ▸ rfl)
  · rw [Side.live_some (x := (s.lane id).agent) hy] at hrise
    exact hrise.unread (Side.live_none (x := (s.lane id).client) hx ▸ rfl)

theorem bytes_arrive_in_order_read :
    ∃ s x, exec (step tightSetup) start
        (openRun ++ byteRun 1 ++ [.client (.stream 1 (.read 1))]) = some s ∧
      s.client.ep.live.lookup 1 = some x ∧ x.delivered = [7] ∧
      ∃ y, s.agent.ep.live.lookup 1 = some y ∧ y.Feeds x := by
  obtain ⟨s, x, y, hs, hx, hread, hy⟩ : ∃ s x y, exec (step tightSetup) start
        (openRun ++ byteRun 1 ++ [.client (.stream 1 (.read 1))]) = some s ∧
      s.client.ep.live.lookup 1 = some x ∧ x.delivered = [7] ∧
      s.agent.ep.live.lookup 1 = some y := ⟨_, _, _, rfl, rfl, rfl, rfl⟩
  exact ⟨s, x, hs, hx, hread, y, hy,
    ((bytes_arrive_in_order tightSetup (reachable_exec _ (.start _) hs) 1).1 x y hx hy).2⟩

theorem Stream.Sound.window {maxData window : ℕ} {s : Stream} (h : s.Sound maxData window) :
    s.receiveCredit + s.kept + s.creditPc.owed = window ∧ s.inbound.length ≤ window := by
  have hcredit := h.credit
  rw [Stream.kept]
  omega

/-- The credit branches of a stream `s` of the end `e` that is given the frames `fs`: the DATA the
driver is about to push fits, no WINDOW_UPDATE under way exceeds the window, and the credit worker
can add up what it gives back. -/
structure Stream.InCredit {σ : Type} (e : Endpoint σ) (id : ℕ) (fs : List Frame) (s : Stream) :
    Prop where
  push : e.ended = none → ∀ payload, e.await = .creditGate id payload →
    s.receiveGateFree = true → ∃ s', s.pushInbound payload = .ok s'
  add : ∀ i credit, .windowUpdate i credit ∈ fs →
    s.peerCredit.available + credit < 2 ^ 32 ∧
      s.peerCredit.available + credit ≤ s.peerCredit.maximum
  update : ∀ credit, s.creditPc = .update credit →
    s.receiveCredit + credit < 2 ^ 32 ∧ s.receiveCredit + credit ≤ s.capacity
  buffer : s.inbound.length ≤ s.capacity

theorem credit_le_creditSum {i credit : ℕ} (h : .windowUpdate i credit ∈ fs) :
    credit ≤ creditSum fs := by
  obtain ⟨before, after, rfl⟩ := append_of_mem h
  have hsum : creditSum (.windowUpdate i credit :: after) = credit + creditSum after := by
    simp [creditSum, Frame.credit]
  rw [creditSum_append, hsum]
  omega

theorem Stream.Sound.inCredit {σ : Type} {e : Endpoint σ} {id maxData window : ℕ} {s t : Stream}
    {listens engaged : Prop} (hs : s.Sound maxData window) (hw : window < 2 ^ 32)
    (hlive : e.live.lookup id = some s) (he : e.Untroubled)
    (hc : Conduit window listens engaged s t gs fs) : s.InCredit e id fs := by
  have hmax := hs.maximum
  have hcap := hs.capacity
  have hcredit := hs.credit
  refine ⟨fun hend payload ha => he.push hend id payload s ha hlive, ?_, ?_, by omega⟩
  · intro i credit hmem
    have hle := credit_le_creditSum hmem
    have hsum := hc.credit
    have hheld : s.peerCredit.available ≤ s.held := Nat.le_add_right _ _
    omega
  · intro credit hat
    simp only [hat, CreditPc.owed] at hcredit
    omega

/-- While neither end has dropped or closed a stream, the credit of each direction is all there:
with the sender, in bytes and WINDOW_UPDATEs under way, or with the receiver. So no branch that
refuses credit is taken, and no buffer holds more than the window. -/
theorem credit_is_conserved (u : Setup) {s : Session}
    (h : Reachable (step u) start s) {id : ℕ} {x y : Stream}
    (hx : s.client.ep.live.lookup id = some x) (hy : s.agent.ep.live.lookup id = some y)
    (hxa : x.alive = true) (hya : y.alive = true) :
    x.held + (dataBytes ((s.lane id).upFrames id)).length + y.kept +
      creditSum ((s.lane id).downFrames id) = u.limits.receiveWindow ∧
    y.held + (dataBytes ((s.lane id).downFrames id)).length + x.kept +
      creditSum ((s.lane id).upFrames id) = u.limits.receiveWindow ∧
    x.InCredit s.client.ep id ((s.lane id).downFrames id) ∧
    y.InCredit s.agent.ep id ((s.lane id).upFrames id) ∧
    x.inbound.length ≤ u.limits.receiveWindow ∧ y.inbound.length ≤ u.limits.receiveWindow := by
  have hc := Session.Conforms.reachable h
  obtain ⟨run, hagent⟩ := hc.agent
  have hxs := (hc.client.sound.sides id).stream x hx
  have hys := (hagent.sound.sides id).stream y hy
  have hlx := hc.client_listens hx hxa
  have hly := hc.agent_listens hy hya
  have hrise := (hc.lanes id).rising
  have hfall := (hc.lanes id).falling
  rw [Side.live_some (x := (s.lane id).client) hx, Side.live_some (x := (s.lane id).agent) hy]
    at hrise hfall
  have hw := u.limits.window_lt
  exact ⟨hrise.balance ⟨hlx, hly⟩ hxa hya, hfall.balance ⟨hly, hlx⟩ hya hxa,
    hxs.inCredit hw hx hc.client_untroubled.ep hrise,
    hys.inCredit hw hy hc.agent_untroubled.ep hfall, hxs.window.2, hys.window.2⟩

theorem credit_is_conserved_byte :
    ∃ s x y, exec (step tightSetup) start (openRun ++ byteRun 1) = some s ∧
      s.client.ep.live.lookup 1 = some x ∧ s.agent.ep.live.lookup 1 = some y ∧
      y.held + (dataBytes ((s.lane 1).downFrames 1)).length + x.kept +
        creditSum ((s.lane 1).upFrames 1) = 1 := by
  obtain ⟨s, x, y, hs, hx, hy, hxa, hya⟩ : ∃ s x y, exec (step tightSetup) start
        (openRun ++ byteRun 1) = some s ∧ s.client.ep.live.lookup 1 = some x ∧
      s.agent.ep.live.lookup 1 = some y ∧ x.alive = true ∧ y.alive = true :=
    ⟨_, _, _, rfl, rfl, rfl, rfl, rfl⟩
  exact ⟨s, x, y, hs, hx, hy,
    (credit_is_conserved tightSetup (reachable_exec _ (.start _) hs) hx hy hxa hya).2.1⟩

/-- Once nothing that is said of a stream is under way, its two ends agree about it; the agent
may only still have an operation of a stream that both have closed. -/
theorem quiet_ends_agree (u : Setup) {s : Session}
    (h : Reachable (step u) start s) {id : ℕ}
    (hup : (s.lane id).upWord id = []) (hdown : (s.lane id).downWord id = []) :
    (s.client.side id).mode = (s.agent.side id).mode ∨
      ((s.client.side id).mode = .idle ∧ (s.agent.side id).mode = .cancelled) := by
  have hphase := ((Session.Conforms.reachable h).lanes id).phase
  exact hphase.quiet hup hdown

theorem quiet_ends_agree_byte :
    ∃ s, exec (step tightSetup) start (openRun ++ byteRun 1) = some s ∧
      (s.client.side 1).mode = .opened ∧ (s.agent.side 1).mode = .opened := by
  obtain ⟨s, hs, hup, hdown, hm⟩ : ∃ s, exec (step tightSetup) start
        (openRun ++ byteRun 1) = some s ∧ (s.lane 1).upWord 1 = [] ∧
      (s.lane 1).downWord 1 = [] ∧ (s.client.side 1).mode = .opened := ⟨_, rfl, rfl, rfl, rfl⟩
  rcases quiet_ends_agree tightSetup (reachable_exec _ (.start _) hs) hup hdown with he | ⟨he, -⟩
  · exact ⟨s, hs, hm, he ▸ hm⟩
  · rw [hm] at he
    cases he

/-- Against any peer, at either end: the receive window of a stream is what the peer may still
send, what waits to be read, and what has been read and is on its way back to the peer. So no
peer makes the buffer exceed the window. -/
theorem window_against_any_peer (limits : NegotiatedLimits) (policy : AgentPolicy) (caps : Caps) :
    (∀ c, Reachable (Client.meet limits caps) Client.start c → ∀ id s,
      c.ep.live.lookup id = some s →
        s.receiveCredit + s.kept + s.creditPc.owed = limits.receiveWindow ∧
          s.inbound.length ≤ limits.receiveWindow) ∧
    ∀ a, Reachable (Agent.meet limits policy caps) Agent.start a → ∀ id s,
      a.ep.live.lookup id = some s →
        s.receiveCredit + s.kept + s.creditPc.owed = limits.receiveWindow ∧
          s.inbound.length ≤ limits.receiveWindow := by
  constructor
  · intro c hc id s hs
    have hspoken : c.Spoken limits := hc.invariant (.start limits) fun _ _ _ hb hm => hb.meet hm
    exact ((hspoken.sound.sides id).stream s hs).window
  · intro a ha id s hs
    obtain ⟨run, hspoken⟩ : ∃ run, a.Spoken limits run := by
      refine ha.invariant (P := fun a => ∃ run, a.Spoken limits run) ⟨[], .start limits⟩ ?_
      rintro b act b' ⟨run, hb⟩ hm
      exact ⟨run ++ [act], hb.meet hm⟩
    exact ((hspoken.sound.sides id).stream s hs).window

theorem window_against_any_peer_closed :
    ∃ a s, exec (Agent.meet oneStream ⟨true, true, true⟩ smallCaps) Agent.start closedTwice =
        some a ∧ a.ep.live.lookup 1 = some s ∧ s.receiveCredit + s.kept + s.creditPc.owed = 1 ∧
      s.inbound.length ≤ 1 := by
  obtain ⟨a, s, ha, hs⟩ : ∃ a s, exec (Agent.meet oneStream ⟨true, true, true⟩ smallCaps)
      Agent.start closedTwice = some a ∧ a.ep.live.lookup 1 = some s := ⟨_, _, rfl, rfl⟩
  exact ⟨a, s, ha, hs, (window_against_any_peer oneStream ⟨true, true, true⟩ smallCaps).2 a
    (reachable_exec closedTwice (.start _) ha) 1 s hs⟩

end Alighieri.Rdp
