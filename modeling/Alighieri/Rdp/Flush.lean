import Alighieri.Rdp.Grammar

/-!
# What `pending_outbound` counts (mux.rs:551-615, 807-894, 964-1085)

`poll_write` adds to the counter what it accepts, the outbound worker takes off what it has
queued, and the close paths set it to zero. A stream is tied to the word it has said on the
ordered queue.
-/

namespace Alighieri.Rdp
open Net Lts List

variable {said : List Frame} {s s' : Stream} {maxData window : ℕ} {act : StreamAct} {eff : Effect}
  {f : Frame}

/- Drained bytes that the counter still has. -/
def OutboundPc.uncounted : OutboundPc → ℕ
  | .sendData payload => payload.length
  | .dataSent count => count
  | _ => 0

def OutboundPc.unqueued : OutboundPc → Bytes
  | .sendData payload => payload
  | _ => []

theorem OutboundPc.unqueued_le (pc : OutboundPc) : pc.unqueued.length ≤ pc.uncounted := by
  cases pc with
  | sendData => exact Nat.le_refl _
  | _ => exact Nat.zero_le _

namespace Stream

theorem dataBytes_hand (s : Stream) (id : ℕ) : dataBytes (s.hand id) = s.outPc.unqueued := by
  have hout : dataBytes (s.outPc.hand id) = s.outPc.unqueued := by
    cases s.outPc <;> simp [dataBytes, Frame.bytes, OutboundPc.unqueued]
  have hcredit : dataBytes (s.creditPc.hand id) = [] := by
    cases s.creditPc <;> simp [dataBytes, Frame.bytes]
  rw [hand, dataBytes_append, hout, hcredit, append_nil]

/-- The stream and what it has said: the counter, the bytes of its DATA frames, and the place
of its SHUTDOWN_WRITE. -/
structure Flushed (id : ℕ) (s : Stream) (said : List Frame) : Prop where
  counted : s.alive = true → s.pendingOutbound = s.outbound.length + s.outPc.uncounted
  drained : dataBytes said ++ s.outPc.unqueued = s.drained
  shut : s.shutdownSent = true ∨ s.outPc = .shutdownSent →
    ∃ before after, said = before ++ .shutdownWrite id :: after ∧ dataBytes before = s.accepted

theorem Flushed.new (id window : ℕ) (h : dataBytes said = []) :
    (Stream.new window).Flushed id said where
  counted _ := rfl
  drained := by
    show dataBytes said ++ [] = []
    rw [h, append_nil]
  shut hs := by
    rcases hs with hs | hs <;> cases hs

/- What the driver does to a stream: the workers stay where they are, and the counter stays
what it was or the stream is not alive any more. -/
structure Touched (s s' : Stream) : Prop where
  outPc : s'.outPc = s.outPc
  drained : s'.drained = s.drained
  accepted : s'.accepted = s.accepted
  shutdownSent : s'.shutdownSent = s.shutdownSent
  counts : s'.alive = true →
    s.alive = true ∧ s'.pendingOutbound = s.pendingOutbound ∧ s'.outbound = s.outbound

theorem Touched.shut (s : Stream) (failure : Option StreamFailure) : s.Touched (s.shut failure) := by
  refine ⟨rfl, rfl, rfl, rfl, ?_⟩
  intro ha
  have hr := (alive_iff.mp ha).2
  cases hr

theorem Touched.dropLocal (s : Stream) : s.Touched s.dropLocal := by
  refine ⟨rfl, rfl, rfl, rfl, ?_⟩
  intro ha
  have hd := (alive_iff.mp ha).1
  cases hd

theorem Touched.frame (h : s' = { s with
    inbound := s'.inbound
    receiveCredit := s'.receiveCredit
    inboundEof := s'.inboundEof
    closeQueued := s'.closeQueued
    peerCredit := s'.peerCredit
    driverGate := s'.driverGate
    aborted := s'.aborted }) : s.Touched s' := by
  refine ⟨by rw [h], by rw [h], by rw [h], by rw [h], ?_⟩
  intro ha
  rw [h] at ha
  exact ⟨ha, by rw [h], by rw [h]⟩

theorem Touched.push {payload : Bytes} (h : s.pushInbound payload = .ok s') : s.Touched s' := by
  obtain ⟨-, -, -, rfl⟩ := pushInbound_ok h
  exact .frame rfl

theorem Touched.finish (h : s.finishInbound = .ok s') : s.Touched s' := by
  unfold finishInbound at h
  split at h
  · cases h
  · cases h
    exact .frame rfl

theorem Touched.credit {credit : ℕ} (h : s.addCredit credit = .ok s') : s.Touched s' := by
  unfold addCredit at h
  split at h
  · cases h
    exact .frame rfl
  · cases h

variable {id : ℕ}

theorem Flushed.touched {out : List Frame} (h : s.Flushed id said) (ht : s.Touched s')
    (hout : dataBytes out = []) : s'.Flushed id (said ++ out) := by
  refine ⟨?_, ?_, ?_⟩
  · intro ha
    obtain ⟨hl, hp, ho⟩ := ht.counts ha
    rw [hp, ho, ht.outPc]
    exact h.counted hl
  · rw [dataBytes_append, hout, append_nil, ht.outPc, ht.drained]
    exact h.drained
  · intro hs
    rw [ht.outPc, ht.shutdownSent] at hs
    obtain ⟨before, after, hsaid, hbytes⟩ := h.shut hs
    refine ⟨before, after ++ out, ?_, hbytes.trans ht.accepted.symm⟩
    rw [hsaid, append_assoc]
    rfl

/-! ### The steps of the stream -/

theorem Sound.shut_of_sent (hs : s.Sound maxData window)
    (h : s.shutdownSent = true ∨ s.outPc = .shutdownSent) : s.writeShutdown = true := by
  rcases h with h | h
  · exact (hs.shutdown h).1
  · have hpc := hs.pc
    unfold PcSound at hpc
    rw [h] at hpc
    exact hpc.1

theorem Flushed.counted_step (h : s.Flushed id said) (hs : s.Sound maxData window)
    (hr : act.isWorker = true → s.Retired) (hstep : s.step maxData id act = some (s', eff)) :
    s'.alive = true → s'.pendingOutbound = s'.outbound.length + s'.outPc.uncounted := by
  have hcount := h.counted
  have hcase := step_cases hstep
  cases hcase with
  | call hm =>
    cases hm with
    | write bs hl hw =>
      intro ha
      have := hcount hl
      simp only [length_append]
      omega
    | drop => exact fun ha => by cases (alive_iff.mp ha).1
    | _ => exact hcount
  | outbound hm =>
    cases hm with
    | data hat hg hl hp =>
      rename_i credit
      intro ha
      have hsum := hcount hl
      rw [hat] at hsum
      show s.pendingOutbound = (s.outbound.drop credit).length + (s.outbound.take credit).length
      rw [length_drop, length_take]
      simp only [OutboundPc.uncounted] at hsum
      omega
    | counted hat =>
      rename_i count
      intro ha
      have hsum := hcount ha
      rw [hat] at hsum
      show s.pendingOutbound - count = s.outbound.length + 0
      simp only [OutboundPc.uncounted] at hsum
      omega
    | stop hat | leave hat | want hat | shut hat | barred hat | take hat | lost hat | dataPushed hat
    | shutdown hat | unshut hat | shutdownPushed hat | marked hat | closedBefore hat | close hat
    | closePushed hat | emitted hat =>
      intro ha
      have hsum := hcount ha
      rw [hat] at hsum
      exact hsum
  | credit hm => cases hm <;> exact hcount
  | reapOutbound hab hat =>
    -- a worker dies only once its stream has said CLOSE
    intro ha
    have hdead := hs.closed (hr rfl hab).1
    have ha' : s.alive = true := ha
    rw [hdead] at ha'
    cases ha'
  | reapCredit => exact hcount

theorem Flushed.shut_step (h : s.Flushed id said) (hs : s.Sound maxData window)
    (hstep : s.step maxData id act = some (s', eff)) :
    s'.shutdownSent = true ∨ s'.outPc = .shutdownSent →
      ∃ before after, said ++ eff.frames = before ++ .shutdownWrite id :: after ∧
        dataBytes before = s'.accepted := by
  -- what has been said before stays, and nothing is accepted any more
  have hkeep : s.shutdownSent = true ∨ s.outPc = .shutdownSent → s'.accepted = s.accepted →
      ∃ before after, said ++ eff.frames = before ++ .shutdownWrite id :: after ∧
        dataBytes before = s'.accepted := by
    intro hsent hacc
    obtain ⟨before, after, hsaid, hbytes⟩ := h.shut hsent
    refine ⟨before, after ++ eff.frames, ?_, hbytes.trans hacc.symm⟩
    rw [hsaid, append_assoc]
    rfl
  have hcase := step_cases hstep
  cases hcase with
  | call hm =>
    cases hm with
    | write bs hl hw =>
      intro hsent
      rw [hs.shut_of_sent hsent] at hw
      cases hw
    | _ => exact fun hsent => hkeep hsent rfl
  | outbound hm =>
    cases hm with
    | shutdownPushed hat =>
      intro _
      refine ⟨said, [], rfl, ?_⟩
      have hall : s.drained = s.accepted := hs.complete (by simp [hasShut, hat])
      have hdrained := h.drained
      rw [hat] at hdrained
      rw [← hall, ← hdrained]
      exact (append_nil _).symm
    | marked hat => exact fun _ => hkeep (.inr hat) rfl
    | _ =>
      intro hsent
      rcases hsent with hsent | hpc
      · exact hkeep (.inl hsent) rfl
      · cases hpc
  | credit hm => cases hm <;> exact fun hsent => hkeep hsent rfl
  | reapOutbound =>
    intro hsent
    rcases hsent with hsent | hpc
    · exact hkeep (.inl hsent) rfl
    · cases hpc
  | reapCredit => exact fun hsent => hkeep hsent rfl

theorem Flushed.step (h : s.Flushed id said) (hs : s.Sound maxData window)
    (hr : act.isWorker = true → s.Retired) (hstep : s.step maxData id act = some (s', eff)) :
    s'.Flushed id (said ++ eff.frames) := by
  refine ⟨h.counted_step hs hr hstep, ?_, h.shut_step hs hstep⟩
  obtain ⟨new, hm⟩ := hs.step_moved hr hstep
  rw [hm.drained, ← h.drained, ← s'.dataBytes_hand id, ← s.dataBytes_hand id, dataBytes_append,
    append_assoc, ← dataBytes_append, hm.hand, dataBytes_append, append_assoc]

/-! ### What the calls may say -/

/-- Every accepted byte has been queued, is in the worker's hand or in `outbound`, and the
counter has the bytes of the last two. -/
theorem Flushed.split (h : s.Flushed id said) (hs : s.Sound maxData window) (hl : s.alive = true) :
    s.accepted = dataBytes said ++ (s.outPc.unqueued ++ s.outbound) ∧
      (s.outPc.unqueued ++ s.outbound).length ≤ s.pendingOutbound := by
  refine ⟨?_, ?_⟩
  · rw [← hs.drains hl, ← h.drained, append_assoc]
  · have hle := s.outPc.unqueued_le
    rw [h.counted hl, length_append]
    omega

theorem Flushed.flush_ready (h : s.Flushed id said) (hs : s.Sound maxData window)
    (hready : s.pollFlush = .ready) : dataBytes said = s.accepted := by
  unfold pollFlush at hready
  split at hready
  · cases hready
  split at hready
  · cases hready
  rename_i hopen
  split at hready
  · simp only [Bool.or_eq_true, not_or, Bool.not_eq_true] at hopen
    obtain ⟨hsplit, hle⟩ := h.split hs (alive_iff.mpr ⟨hopen.2, hopen.1⟩)
    have hnil : s.outPc.unqueued ++ s.outbound = [] :=
      eq_nil_of_length_eq_zero (by omega)
    rw [hsplit, hnil, append_nil]
  · cases hready

theorem sent_of_shutdown_ready (hready : s.pollShutdown.1 = .ready) : s.shutdownSent = true := by
  unfold pollShutdown at hready
  split at hready
  · cases hready
  split at hready
  · simp only at hready
    split at hready
    · assumption
    · cases hready
  · split at hready
    · rename_i hsent
      rw [Bool.and_eq_true] at hsent
      exact hsent.2
    · cases hready

end Stream

/-! ### The moves of the two ends -/

def Touches (stream stream' : Option Stream) : Prop :=
  stream' = stream ∨ ∃ s s', stream = some s ∧ stream' = some s' ∧ s.Touched s'

theorem Touches.shut (stream : Option Stream) (failure : Stream → Option StreamFailure) :
    Touches stream (stream.map fun s => s.shut (failure s)) := by
  cases stream with
  | none => exact .inl rfl
  | some s => exact .inr ⟨s, _, rfl, rfl, .shut s _⟩

theorem Touches.abort (stream : Option Stream) :
    Touches stream (stream.map ({ · with aborted := true })) := by
  cases stream with
  | none => exact .inl rfl
  | some s => exact .inr ⟨s, _, rfl, rfl, .frame rfl⟩

theorem EventCase.touches {σ : Type} [StreamState σ] {w : WorkerEvent} {e e' : Entry σ}
    (h : EventCase w e e') : Touches e.stream e'.stream := by
  cases h with
  | ignored => exact .inl rfl
  | retired => exact .abort e.stream

theorem FlowCase.touches {limits : NegotiatedLimits} {standing : Standing}
    {stream stream' : Option Stream} {await : Await}
    (h : FlowCase limits standing stream f stream' await) : Touches stream stream' := by
  cases h with
  | ignored | data => exact .inl rfl
  | shutdown h hs hf => exact .inr ⟨_, _, hs, rfl, .finish hf⟩
  | credit h hs hc => exact .inr ⟨_, _, hs, rfl, .credit hc⟩
  | missing h hs => exact .inl hs.symm

theorem dataBytes_of_setsUp {fs : List Frame} (h : ∀ f ∈ fs, f.setsUp = true) :
    dataBytes fs = [] := by
  refine flatMap_eq_nil_iff.mpr ?_
  intro f hf
  have hset := h f hf
  cases f with
  | data => cases hset
  | _ => rfl

theorem Stage.closed_by_close {stage : Stage} (h : stage.next maxData f = some .closed) :
    f.bytes = [] := by
  cases f with
  | data =>
    cases stage with
    | flowing =>
      simp only [Stage.next] at h
      split at h <;> cases h
    | shut | closed => cases h
  | _ => rfl

def Side.Flushed {σ : Type} (id : ℕ) (x : Side σ) (said : List Frame) : Prop :=
  ∀ s, x.stream = some s → s.Flushed id said

namespace Side

variable {σ : Type} {limits : NegotiatedLimits} {id closes : ℕ} {late : Bool}
  {x x' : Side σ} {said out : List Frame}

theorem Flushed.touch (h : x.Flushed id said) (ht : Touches x.stream x'.stream)
    (hout : ∀ s, x.stream = some s → dataBytes out = []) : x'.Flushed id (said ++ out) := by
  intro s' hs'
  rcases ht with hsame | ⟨s, t, hs, ht, htouched⟩
  · rw [hsame] at hs'
    exact (h s' hs').touched (.frame rfl) (hout s' hs')
  · rw [ht] at hs'
    cases hs'
    exact (h s hs).touched htouched (hout s hs)

theorem Flushed.spawn (window : ℕ) (hset : ∀ f ∈ said ++ out, f.setsUp = true)
    (hs : x'.stream = some s) (hnew : s = Stream.new window ∨ s = (Stream.new window).dropLocal) :
    x'.Flushed id (said ++ out) := by
  intro t ht
  rw [hs] at ht
  cases ht
  have hfresh := Stream.Flushed.new id window (dataBytes_of_setsUp hset)
  rcases hnew with rfl | rfl
  · exact hfresh
  · rw [← append_nil (said ++ out)]
    exact hfresh.touched (.dropLocal _) rfl

variable [StreamState σ]

/- The word has ended with CLOSE, so the frame is that CLOSE, an acknowledgement of a later one,
or none of the word at all. -/
theorem Spoken.sending_bytes (h : x.Spoken limits.maxData id late said closes)
    (hx : x.Sound limits id) {next : Next} (ha : x.await = .ordered f next)
    (hs : x.stream = some s) : f.bytes = [] := by
  have hover := h.sending f next s ha hs
  obtain ⟨setup, word, acks, hsp⟩ := h.spelled s hs
  have hsplit := hsp.split
  rw [hover.hand (hx.stream s hs) id, append_nil, ha] at hsplit
  change said ++ [f] = setup ++ word ++ acks at hsplit
  rcases eq_nil_or_concat acks with hacks | ⟨acks', g, hacks⟩
  · rw [hacks, append_nil] at hsplit
    rcases eq_nil_or_concat word with hword | ⟨word', g, hword⟩
    · rw [hword, append_nil] at hsplit
      have hmem : f ∈ setup := hsplit ▸ mem_append_right _ (mem_singleton_self f)
      have hset := hsp.sets f hmem
      cases f with
      | data => cases hset
      | _ => rfl
    · rw [hword, concat_eq_append, ← append_assoc] at hsplit
      obtain ⟨-, hfg⟩ := append_inj' hsplit rfl
      cases hfg
      have hreads := hsp.reads
      rw [hword, concat_eq_append, exec_append] at hreads
      obtain ⟨stage, -, hlast⟩ := Option.bind_eq_some_iff.mp hreads
      obtain ⟨stage', hnext, hend⟩ := Option.bind_eq_some_iff.mp hlast
      cases hend
      have hclosed : s.stage = .closed := by simp [Stream.stage, hover.1]
      exact Stage.closed_by_close (hnext.trans (congrArg some hclosed))
  · rw [hacks, concat_eq_append, ← append_assoc] at hsplit
    obtain ⟨-, hfg⟩ := append_inj' hsplit rfl
    cases hfg
    rw [hsp.acked f (by rw [hacks, concat_eq_append]; simp)]
    rfl

theorem Flushed.move (h : x.Flushed id said) (hx : x.Sound limits id)
    (hsp : x.Spoken limits.maxData id late said closes)
    (hm : SideMove limits.maxData id x x' out) : x'.Flushed id (said ++ out) := by
  cases hm with
  | skip | stop | refused => exact h.touch (.inl rfl) fun _ _ => rfl
  | act a hs hrun hstep =>
    intro t ht
    cases ht
    refine (h _ hs).step (hx.stream _ hs) ?_ hstep
    intro hw
    rcases hrun with hend | hcall
    · exact hx.retired hend _ hs
    · rw [hw] at hcall
      cases hcall
  | sent hrun ha =>
    refine h.touch (.inl rfl) fun s hs => ?_
    simp [dataBytes, hsp.sending_bytes hx ha hs]
  | closeFound hrun ha hs | closeTaken hrun ha hs | closeSent hrun ha hs =>
    exact h.touch (.inr ⟨_, _, hs, rfl, .frame rfl⟩) fun _ _ => rfl
  | pushed hrun ha hs hg hp => exact h.touch (.inr ⟨_, _, hs, rfl, .push hp⟩) fun _ _ => rfl
  | torn hend hs =>
    rename_i s error
    have htorn : s.Touched { s.sessionFailure error with aborted := true } := by
      refine ⟨rfl, rfl, rfl, rfl, ?_⟩
      intro ha
      cases (Stream.alive_iff.mp ha).2
    exact h.touch (.inr ⟨_, _, hs, rfl, htorn⟩) fun _ _ => rfl

end Side

section Client

variable {limits : NegotiatedLimits} {id closes : ℕ} {x x' : Side ClientStreamState}
  {said inp out : List Frame}

theorem CommandCase.touches {e : Entry ClientStreamState} {r : ClientHandled} {cmd : ClientCommand}
    {full : Bool} (h : CommandCase full e r cmd) : Touches e.stream r.entry.stream := by
  cases h with
  | closeOpened => exact .shut e.stream fun _ => some (.session cancelled)
  | _ => exact .inl rfl

theorem Side.Flushed.clientMove (h : x.Flushed id said) (hx : x.Sound limits id)
    (hsp : x.Spoken limits.maxData id false said closes)
    (hm : ClientMove limits id x x' inp out) : x'.Flushed id (said ++ out) := by
  cases hm with
  | side hm => exact h.move hx hsp hm
  | pass | commandError | frameError =>
    exact h.touch (.inl rfl) fun _ _ => rfl
  | command hid hrun hidle hnew hc =>
    exact h.touch (handleClientCommand_case hc).touches fun _ _ => rfl
  | frame hf hrun hidle hc =>
    rename_i alive f r
    cases handleClientFrame_case hc with
    | flow hc => exact h.touch hc.touches fun _ _ => rfl
    | opened hst =>
      have hset := hsp.setting (.inl ⟨_, hst, rfl⟩)
      rw [hidle] at hset
      refine .spawn limits.receiveWindow hset rfl ?_
      cases alive with
      | true => exact .inl rfl
      | false => exact .inr rfl
    | @closeOpened _ reason =>
      exact h.touch (.shut x.stream fun s =>
        if reason ≠ .normal then some (.remoteClosed reason) else s.failure) fun _ _ => rfl
    | _ => exact h.touch (.inl rfl) fun _ _ => rfl
  | event =>
    refine h.touch ?_ fun _ _ => rfl
    exact (clientWorkerEvent_case _ _).touches

end Client

section Agent

variable {limits : NegotiatedLimits} {policy : AgentPolicy} {id closes : ℕ}
  {x x' : Side AgentStreamState} {ops ops' : List Operation} {said inp out : List Frame}

theorem AgentFrameCase.touches {v : AgentView} {e : Entry AgentStreamState} {r : AgentHandled}
    (h : AgentFrameCase v e r f) : Touches e.stream r.entry.stream := by
  cases h with
  | flow hc => exact hc.touches
  | @closeOpened _ reason =>
    exact .shut e.stream fun s => if reason ≠ .normal then some (.remoteClosed reason) else s.failure
  | _ => exact .inl rfl

theorem FinishCase.touches {e e' : Entry AgentStreamState} {await : Await} {done : AgentOperation}
    (h : FinishCase e e' await done) : Touches e.stream e'.stream := by
  cases h <;> exact .inl rfl

theorem Side.Flushed.agentMove (h : x.Flushed id said) (hx : x.Sound limits id)
    (hsp : x.Spoken limits.maxData id true said closes)
    (hm : AgentMove limits policy id x ops x' ops' inp out) : x'.Flushed id (said ++ out) := by
  cases hm with
  | side hm => exact h.move hx hsp hm
  | pass | frameError | finishError | resolved =>
    exact h.touch (.inl rfl) fun _ _ => rfl
  | frame hv hk hf hrun hidle hc =>
    exact h.touch (handleAgentFrame_case hc).touches fun _ _ => rfl
  | event =>
    refine h.touch ?_ fun _ _ => rfl
    exact (agentWorkerEvent_case _ _).touches
  | finish hop hid hrun hidle hd hc =>
    exact h.touch (finishAgentOperation_case hc).touches fun _ _ => rfl
  | opened hrun ha =>
    have hset := hsp.setting (.inr (by simp [ha, Await.next, Next.inserts]))
    rw [ha] at hset
    exact .spawn limits.receiveWindow hset rfl (.inl rfl)

end Agent

/-! ### Every run -/

structure Client.Flushed (limits : NegotiatedLimits) (c : Client) : Prop where
  spoken : c.Spoken limits
  flushed : ∀ id, (c.side id).Flushed id (onLane id c.ep.log)

structure Agent.Flushed (limits : NegotiatedLimits) (run : List (PeerAct AgentAct)) (a : Agent) :
    Prop where
  spoken : a.Spoken limits run
  flushed : ∀ id, (a.side id).Flushed id (onLane id a.ep.log)

theorem Client.Flushed.meet {limits : NegotiatedLimits} {caps : Caps} {c c' : Client}
    {act : PeerAct ClientAct} (hc : c.Flushed limits) (h : c.meet limits caps act = some c') :
    c'.Flushed limits := by
  refine ⟨hc.spoken.meet h, fun id => ?_⟩
  cases act with
  | arrive f =>
    obtain ⟨-, -, rfl⟩ := Endpoint.arrive_put h
    exact hc.flushed id
  | depart =>
    cases Endpoint.depart_put h
    exact hc.flushed id
  | own act =>
    obtain ⟨inp, out, hmove, hflow⟩ := Client.step_side hc.spoken.sound.orderly h id
    obtain ⟨closes, hsaid⟩ := hc.spoken.said id
    rw [hflow.logged]
    exact (hc.flushed id).clientMove (hc.spoken.sound.sides id) hsaid hmove

theorem Agent.Flushed.meet {limits : NegotiatedLimits} {policy : AgentPolicy} {caps : Caps}
    {run : List (PeerAct AgentAct)} {a a' : Agent} {act : PeerAct AgentAct}
    (ha : a.Flushed limits run) (h : a.meet limits policy caps act = some a') :
    a'.Flushed limits (run ++ [act]) := by
  refine ⟨ha.spoken.meet h, fun id => ?_⟩
  cases act with
  | arrive f =>
    obtain ⟨-, -, rfl⟩ := Endpoint.arrive_put h
    exact ha.flushed id
  | depart =>
    cases Endpoint.depart_put h
    exact ha.flushed id
  | own act =>
    obtain ⟨inp, out, hmove, hflow⟩ := Agent.step_side ha.spoken.sound.orderly h id
    obtain ⟨closes, hsaid, -⟩ := ha.spoken.said id
    rw [hflow.logged]
    exact (ha.flushed id).agentMove (ha.spoken.sound.sides id) hsaid hmove

/-- What the calls on a stream may tell their caller, given what the stream has said. -/
structure Stream.Honest (id : ℕ) (s : Stream) (said : List Frame) : Prop where
  pending : s.dropped = false → s.remoteClosed = false →
    s.accepted = dataBytes said ++ (s.outPc.unqueued ++ s.outbound) ∧
      (s.outPc.unqueued ++ s.outbound).length ≤ s.pendingOutbound
  flush : s.pollFlush = .ready → dataBytes said = s.accepted
  shutdown : s.pollShutdown.1 = .ready → ∃ before after,
    said = before ++ .shutdownWrite id :: after ∧ dataBytes before = s.accepted

theorem Stream.Flushed.honest {id : ℕ} (h : s.Flushed id said) (hs : s.Sound maxData window) :
    s.Honest id said where
  pending hd hr := h.split hs (alive_iff.mpr ⟨hd, hr⟩)
  flush := h.flush_ready hs
  shutdown hready := h.shut (.inl (sent_of_shutdown_ready hready))

/-- At either end and against any peer: `pending_outbound` counts the accepted bytes that are not
queued yet, `poll_flush` is ready only when all are, and `poll_shutdown` only when SHUTDOWN_WRITE
is queued after them. -/
theorem streams_honest (limits : NegotiatedLimits) (policy : AgentPolicy) (caps : Caps) :
    (∀ c, Reachable (Client.meet limits caps) Client.start c →
      ∀ id s, c.ep.live.lookup id = some s → s.Honest id (onLane id c.ep.log)) ∧
    (∀ a, Reachable (Agent.meet limits policy caps) Agent.start a →
      ∀ id s, a.ep.live.lookup id = some s → s.Honest id (onLane id a.ep.log)) := by
  constructor
  · intro c hc id s hs
    have hstart : Client.start.Flushed limits := ⟨.start limits, fun id s hs => by cases hs⟩
    have hflushed : c.Flushed limits := hc.invariant hstart fun _ _ _ hb hm => hb.meet hm
    exact (hflushed.flushed id s hs).honest ((hflushed.spoken.sound.sides id).stream s hs)
  · intro a ha id s hs
    have hstart : Agent.start.Flushed limits [] := ⟨.start limits, fun id s hs => by cases hs⟩
    obtain ⟨run, hflushed⟩ : ∃ run, a.Flushed limits run := by
      refine ha.invariant (P := fun a => ∃ run, a.Flushed limits run) ⟨[], hstart⟩ ?_
      rintro b act b' ⟨run, hb⟩ hm
      exact ⟨run ++ [act], hb.meet hm⟩
    exact (hflushed.flushed id s hs).honest ((hflushed.spoken.sound.sides id).stream s hs)

def flushedRun : List (PeerAct ClientAct) :=
  openedOnce ++ [.own (.pick false), .depart, .own (.stream 1 (.write [7]))] ++
    List.replicate 5 (.own (.stream 1 .outbound)) ++
    [.own (.pick false), .depart, .own (.stream 1 .shutdown)] ++
    List.replicate 4 (.own (.stream 1 .outbound))

theorem streams_honest_flushed :
    (∃ c s, exec (Client.meet oneStream smallCaps) Client.start flushedRun = some c ∧
      c.ep.live.lookup 1 = some s ∧ s.accepted = [7] ∧ dataBytes (onLane 1 c.ep.log) = [7] ∧
      ∃ before after, onLane 1 c.ep.log = before ++ .shutdownWrite 1 :: after ∧
        dataBytes before = [7]) ∧
    ∃ a s, exec (Agent.meet oneStream ⟨true, true, true⟩ smallCaps) Agent.start closedTwice =
        some a ∧ a.ep.live.lookup 1 = some s ∧ s.Honest 1 (onLane 1 a.ep.log) := by
  constructor
  · have hrun : (exec (Client.meet oneStream smallCaps) Client.start flushedRun).bind (fun c =>
        (c.ep.live.lookup 1).map fun s => (s.accepted, s.pollFlush, s.pollShutdown.1)) =
        some ([7], .ready, .ready) := by decide +kernel
    obtain ⟨c, hc, hs⟩ := Option.bind_eq_some_iff.mp hrun
    obtain ⟨s, hs, heq⟩ := Option.map_eq_some_iff.mp hs
    simp only [Prod.mk.injEq] at heq
    obtain ⟨hacc, hflush, hshut⟩ := heq
    have hhonest := (streams_honest oneStream ⟨true, true, true⟩ smallCaps).1 c
      (reachable_exec flushedRun (Reachable.start _) hc) 1 s hs
    have hall := hhonest.flush hflush
    have hsent := hhonest.shutdown hshut
    rw [hacc] at hall hsent
    exact ⟨c, s, hc, hs, hacc, hall, hsent⟩
  · obtain ⟨a, ha, s, hs⟩ : ∃ a, exec (Agent.meet oneStream ⟨true, true, true⟩ smallCaps) Agent.start
        closedTwice = some a ∧ ∃ s, a.ep.live.lookup 1 = some s := ⟨_, rfl, _, rfl⟩
    exact ⟨a, s, ha, hs, (streams_honest oneStream ⟨true, true, true⟩ smallCaps).2 a
      (reachable_exec closedTwice (Reachable.start _) ha) 1 s hs⟩

end Alighieri.Rdp
