import Alighieri.Rdp.Client
import Alighieri.Rdp.Agent

/-!
# What each step of an endpoint does

One inversion lemma for each transition function of `Alighieri.Rdp.Endpoint`: the
guards it has passed and the record it leaves, with every field it does not
mention unchanged.
-/

namespace Alighieri.Rdp
open Net Option

variable {f : Frame} {next : Next}

theorem bind_ok {ε α β : Type} {x : Except ε α} {f : α → Except ε β} {b : β}
    (h : (x >>= f) = .ok b) : ∃ a, x = .ok a ∧ f a = .ok b := by
  cases x with
  | error e => cases h
  | ok a => exact ⟨a, rfl, h⟩

def Effect.frames : Effect → List Frame
  | .push f | .publish f => [f]
  | _ => []

def Effect.events : Effect → List WorkerEvent
  | .event w => [w]
  | _ => []

namespace Endpoint

variable {σ : Type} {e e' : Endpoint σ} {limits : NegotiatedLimits} {caps : Caps}

theorem effect_cases {eff : Effect} (h : e.effect caps eff = some e') :
    ∃ r, e' = { e with
      ordered := e.ordered ++ eff.frames
      log := e.log ++ eff.frames
      events := e.events ++ eff.events
      reserved := r } := by
  cases eff with
  | none =>
    cases h
    exact ⟨e.reserved, by simp [Effect.frames, Effect.events]⟩
  | push f =>
    simp only [effect] at h
    split at h
    · cases h
      exact ⟨e.reserved, by simp [Effect.frames, Effect.events, enqueue]⟩
    · cases h
  | publish f =>
    cases h
    exact ⟨e.reserved - 1, by simp [Effect.frames, Effect.events, enqueue]⟩
  | reserve =>
    simp only [effect] at h
    split at h
    · cases h
      exact ⟨e.reserved + 1, by simp [Effect.frames, Effect.events]⟩
    · cases h
  | release =>
    cases h
    exact ⟨e.reserved - 1, by simp [Effect.frames, Effect.events]⟩
  | event w =>
    simp only [effect] at h
    split at h
    · cases h
      exact ⟨e.reserved, by simp [Effect.frames, Effect.events]⟩
    · cases h

theorem streamStep_cases {id : ℕ} {a : StreamAct}
    (h : e.streamStep limits caps id a = some e') :
    ∃ s s' eff r, (e.ended = none ∨ a.isWorker = false) ∧ e.live.lookup id = some s ∧
      s.step limits.maxData id a = some (s', eff) ∧
      e' = { e with
        live := e.live.set id (some s')
        ordered := e.ordered ++ eff.frames
        log := e.log ++ eff.frames
        events := e.events ++ eff.events
        reserved := r } := by
  unfold streamStep at h
  split at h
  · cases h
  rename_i hw
  have hrun : e.ended = none ∨ a.isWorker = false := by
    cases hend : e.ended with
    | none => exact .inl rfl
    | some err =>
      cases ha : a.isWorker with
      | false => exact .inr rfl
      | true => simp [hend, ha] at hw
  split at h
  · cases h
  rename_i s hs
  split at h
  · cases h
  rename_i s' eff hstep
  obtain ⟨r, rfl⟩ := effect_cases h
  exact ⟨s, s', eff, r, hrun, hs, hstep, rfl⟩

theorem pick_cases {raced : Bool} (h : e.pick raced = some e') :
    e.ended = none ∧ e.writer = none ∧
    ((∃ f cs, e.control = f :: cs ∧
        e' = { e with control := cs, writer := some f, burst := e.burst + 1 }) ∨
     (∃ f os, e.ordered = f :: os ∧
        e' = { e with ordered := os, writer := some f, burst := 0 })) := by
  unfold pick at h
  split at h
  · cases h
  rename_i hrun
  simp only [Bool.or_eq_true, not_or, Bool.not_eq_true, isSome_eq_false_iff,
    isNone_iff_eq_none] at hrun
  refine ⟨hrun.1, hrun.2, ?_⟩
  split at h
  · rename_i c cs o os hc ho
    split at h
    · cases h
      exact .inl ⟨c, cs, hc, rfl⟩
    · cases h
      exact .inr ⟨o, os, ho, rfl⟩
  · rename_i c cs hc ho
    cases h
    exact .inl ⟨c, cs, hc, rfl⟩
  · rename_i o os hc ho
    cases h
    exact .inr ⟨o, os, ho, rfl⟩
  · cases h

theorem depart_cases (h : e.depart = some (f, e')) :
    e.ended = none ∧ e.writer = some f ∧ e' = { e with writer := none } := by
  unfold depart at h
  split at h
  · cases h
  rename_i hrun
  obtain ⟨g, hg, heq⟩ := map_eq_some_iff.mp h
  cases heq
  exact ⟨by simpa using hrun, hg, rfl⟩

theorem arrive_cases (h : e.arrive f = some e') :
    e.ended = none ∧ e.reader = none ∧ e' = { e with reader := some f } := by
  unfold arrive at h
  split at h
  · cases h
  rename_i hrun
  simp only [Bool.or_eq_true, not_or, Bool.not_eq_true, isSome_eq_false_iff,
    isNone_iff_eq_none] at hrun
  cases h
  exact ⟨hrun.1, hrun.2, rfl⟩

theorem arrive_put {α : Type} {put : Endpoint σ → α} {x : α} (h : (e.arrive f).map put = some x) :
    e.ended = none ∧ e.reader = none ∧ put { e with reader := some f } = x := by
  obtain ⟨e', he, rfl⟩ := map_eq_some_iff.mp h
  obtain ⟨hend, hr, rfl⟩ := arrive_cases he
  exact ⟨hend, hr, rfl⟩

theorem depart_put {α : Type} {put : Endpoint σ → α} {x : α}
    (h : (e.depart.map Prod.snd).map put = some x) : put { e with writer := none } = x := by
  obtain ⟨e', he, rfl⟩ := map_eq_some_iff.mp h
  obtain ⟨⟨f, e''⟩, hd, rfl⟩ := map_eq_some_iff.mp he
  obtain ⟨-, -, rfl⟩ := depart_cases hd
  rfl

theorem deliver_cases (h : e.deliver caps = some e') :
    ∃ f, e.ended = none ∧ e.reader = some f ∧
      e' = { e with reader := none, frames := e.frames ++ [f] } := by
  unfold deliver at h
  split at h
  · cases h
  rename_i hrun
  split at h
  · rename_i f hf
    split at h
    · cases h
      exact ⟨f, by simpa using hrun, hf, rfl⟩
    · cases h
  · cases h

theorem ready_iff : e.ready = true ↔ e.ended = none ∧ e.await = .idle := by
  unfold ready
  rw [Bool.and_eq_true, isNone_iff_eq_none, decide_eq_true_eq]

theorem keepalive_cases {nonce : ℕ} (h : e.keepalive nonce = some e') :
    e.ended = none ∧ e.await = .idle ∧
    (e' = e ∨ (e.ping = none ∧ e' = { e with await := .control (.ping nonce) (.ping nonce) })) := by
  unfold keepalive at h
  split at h
  · rename_i hready
    obtain ⟨hend, hidle⟩ := ready_iff.mp hready
    refine ⟨hend, hidle, ?_⟩
    split at h
    · cases h
      exact .inl rfl
    · rename_i hping
      cases h
      exact .inr ⟨hping, rfl⟩
  · cases h

/-- How a suspended handler goes on. -/
inductive Resumed {σ : Type} (e : Endpoint σ) : Endpoint σ → Next → Prop where
  | ordered {f : Frame} {next : Next} (ha : e.await = .ordered f next) :
      Resumed e { e.enqueue f with await := .idle } next
  | control {f : Frame} {next : Next} (ha : e.await = .control f next) :
      Resumed e { e with control := e.control ++ [f], await := .idle } next
  | closeFound {id : ℕ} {reason : CloseReason} {s : Stream} (ha : e.await = .closeGate id reason)
      (hs : e.live.lookup id = some s) (hg : s.sendGateFree = true) (hq : s.closeQueued = true) :
      Resumed e { e.setStream id { s with aborted := true } with await := .idle } .done
  | closeTaken {id : ℕ} {reason : CloseReason} {s : Stream} (ha : e.await = .closeGate id reason)
      (hs : e.live.lookup id = some s) (hg : s.sendGateFree = true) (hq : s.closeQueued = false) :
      Resumed e { e.setStream id { s with closeQueued := true, driverGate := true } with
        await := .closeSend id reason } .done
  | closeSent {id : ℕ} {reason : CloseReason} {s : Stream} (ha : e.await = .closeSend id reason)
      (hs : e.live.lookup id = some s) :
      Resumed e { (e.setStream id { s with driverGate := false, aborted := true }).enqueue
        (.close id reason) with await := .idle } .done
  | pushed {id : ℕ} {payload : Bytes} {s s' : Stream} (ha : e.await = .creditGate id payload)
      (hs : e.live.lookup id = some s) (hg : s.receiveGateFree = true)
      (hp : s.pushInbound payload = .ok s') :
      Resumed e { e.setStream id s' with await := .idle } .done
  | refused {id : ℕ} {payload : Bytes} {s : Stream} {error : MuxError}
      (ha : e.await = .creditGate id payload) (hs : e.live.lookup id = some s)
      (hg : s.receiveGateFree = true) (hp : s.pushInbound payload = .error error) :
      Resumed e (e.fail error) .done

theorem resume_cases (h : e.resume caps = some (e', next)) :
    e.ended = none ∧ e.Resumed e' next := by
  unfold resume at h
  split at h
  · cases h
  rename_i hrun
  refine ⟨by simpa using hrun, ?_⟩
  split at h
  · cases h
  · rename_i ha
    split at h
    · cases h
      exact .ordered ha
    · cases h
  · rename_i ha
    split at h
    · cases h
      exact .control ha
    · cases h
  · rename_i ha
    obtain ⟨e1, he1, heq⟩ := map_eq_some_iff.mp h
    cases heq
    unfold resumeClose at he1
    split at he1
    · cases he1
    rename_i hs
    split at he1
    · rename_i hfree
      split at he1
      · rename_i hq
        cases he1
        exact .closeFound ha hs hfree hq
      · rename_i hq
        cases he1
        exact .closeTaken ha hs hfree (by simpa using hq)
    · cases he1
  · rename_i ha
    split at h
    · cases h
    rename_i hs
    split at h
    · cases h
      exact .closeSent ha hs
    · cases h
  · rename_i ha
    split at h
    · cases h
    rename_i hs
    split at h
    · rename_i hfree
      split at h
      · rename_i hp
        cases h
        exact .pushed ha hs hfree hp
      · rename_i hp
        cases h
        exact .refused ha hs hfree hp
    · cases h

theorem resume_next (h : e.resume caps = some (e', next)) : e.await.next = next := by
  cases (resume_cases h).2 with
  | ordered ha | control ha | closeFound ha | closeTaken ha | closeSent ha | pushed ha
  | refused ha =>
    rw [ha]
    rfl

theorem resume_keeps (h : e.resume caps = some (e', next)) :
    e'.streams = e.streams ∧ (e'.ended = e.ended ∨ e'.ended ≠ none) := by
  cases (resume_cases h).2 with
  | refused => exact ⟨rfl, .inr nofun⟩
  | _ => exact ⟨rfl, .inl rfl⟩

theorem resume_ordered {next' : Next} (ha : e.await = .ordered f next)
    (h : e.resume caps = some (e', next')) :
    e.ended = none ∧ e' = { e.enqueue f with await := .idle } := by
  obtain ⟨hend, hcase⟩ := resume_cases h
  refine ⟨hend, ?_⟩
  cases hcase with
  | ordered hg =>
    cases ha.symm.trans hg
    rfl
  | control hg | closeFound hg | closeTaken hg | closeSent hg | pushed hg | refused hg =>
    cases ha.symm.trans hg

/-- The steps that the two ends have in common, with the frames they take off the incoming
queue. -/
inductive Turn {σ : Type} (limits : NegotiatedLimits) (caps : Caps) (e : Endpoint σ) :
    List Frame → Endpoint σ → Prop where
  | stream {id : ℕ} {a : StreamAct} {e' : Endpoint σ} (h : e.streamStep limits caps id a = some e') :
      Turn limits caps e [] e'
  | pick {raced : Bool} {e' : Endpoint σ} (h : e.pick raced = some e') : Turn limits caps e [] e'
  | deliver {e' : Endpoint σ} (h : e.deliver caps = some e') : Turn limits caps e [] e'
  | keepalive {nonce : ℕ} {e' : Endpoint σ} (h : e.keepalive nonce = some e') :
      Turn limits caps e [] e'
  | ping {nonce : ℕ} {rest : List Frame} (hready : e.ready = true)
      (hf : e.frames = .ping nonce :: rest) :
      Turn limits caps e [.ping nonce] (({ e with frames := rest } : Endpoint σ).onPing nonce)
  | pong {nonce : ℕ} {rest : List Frame} (hready : e.ready = true)
      (hf : e.frames = .pong nonce :: rest) :
      Turn limits caps e [.pong nonce] (({ e with frames := rest } : Endpoint σ).onPong nonce)
  | resume {e' : Endpoint σ} (h : e.resume caps = some (e', .done)) : Turn limits caps e [] e'
  | pinged {e' : Endpoint σ} {nonce : ℕ} (h : e.resume caps = some (e', .ping nonce)) :
      Turn limits caps e [] { e' with ping := some nonce }
  | fail {error : MuxError} (hend : e.ended = none) (hp : error.isProtocol = false) :
      Turn limits caps e [] (e.fail error)
  | teardown {id : ℕ} {error : MuxError} {s : Stream} (hend : e.ended = some error)
      (hs : e.live.lookup id = some s) :
      Turn limits caps e [] (e.setStream id { s.sessionFailure error with aborted := true })

structure Kept {σ : Type} (e e' : Endpoint σ) : Prop where
  streams : e'.streams = e.streams
  log : e.log ⊆ e'.log
  await : e'.await = e.await ∨ ((e.await.next = .done ∨ ∃ nonce, e.await.next = .ping nonce) ∧
    (e'.await.next = .done ∨ ∃ nonce, e'.await.next = .ping nonce))
  ended : e'.ended = e.ended ∨ e'.ended ≠ none

theorem resume_kept (h : e.resume caps = some (e', next))
    (hn : next = .done ∨ ∃ nonce, next = .ping nonce) : Kept e e' := by
  rw [← resume_next h] at hn
  cases (resume_cases h).2 with
  | ordered | closeSent =>
    exact ⟨rfl, List.subset_append_left _ _, .inr ⟨hn, .inl rfl⟩, .inl rfl⟩
  | refused => exact ⟨rfl, List.Subset.refl _, .inl rfl, .inr nofun⟩
  | _ => exact ⟨rfl, List.Subset.refl _, .inr ⟨hn, .inl rfl⟩, .inl rfl⟩

theorem Turn.kept {fs : List Frame} (h : e.Turn limits caps fs e') : Kept e e' := by
  cases h with
  | stream h =>
    obtain ⟨s, s', eff, r, -, -, -, rfl⟩ := streamStep_cases h
    exact ⟨rfl, List.subset_append_left _ _, .inl rfl, .inl rfl⟩
  | pick h =>
    obtain ⟨-, -, ⟨f, cs, -, rfl⟩ | ⟨f, os, -, rfl⟩⟩ := pick_cases h <;>
      exact ⟨rfl, List.Subset.refl _, .inl rfl, .inl rfl⟩
  | deliver h =>
    obtain ⟨f, -, -, rfl⟩ := deliver_cases h
    exact ⟨rfl, List.Subset.refl _, .inl rfl, .inl rfl⟩
  | keepalive h =>
    obtain ⟨-, hidle, rfl | ⟨-, rfl⟩⟩ := keepalive_cases h
    · exact ⟨rfl, List.Subset.refl _, .inl rfl, .inl rfl⟩
    · exact ⟨rfl, List.Subset.refl _, .inr ⟨by rw [hidle]; exact .inl rfl, .inr ⟨_, rfl⟩⟩,
        .inl rfl⟩
  | ping hready hf =>
    obtain ⟨-, hidle⟩ := ready_iff.mp hready
    exact ⟨rfl, List.Subset.refl _, .inr ⟨by rw [hidle]; exact .inl rfl, .inl rfl⟩, .inl rfl⟩
  | pong =>
    unfold onPong
    split
    · exact ⟨rfl, List.Subset.refl _, .inl rfl, .inl rfl⟩
    · exact ⟨rfl, List.Subset.refl _, .inl rfl, .inr nofun⟩
  | resume h => exact resume_kept h (.inl rfl)
  | pinged h =>
    have hk := resume_kept h (.inr ⟨_, rfl⟩)
    exact { hk with }
  | fail => exact ⟨rfl, List.Subset.refl _, .inl rfl, .inr nofun⟩
  | teardown => exact ⟨rfl, List.Subset.refl _, .inl rfl, .inl rfl⟩

theorem fail_allowed {error : MuxError} (h : (e.ended.isNone && !error.isProtocol) = true) :
    e.ended = none ∧ error.isProtocol = false := by
  rw [Bool.and_eq_true, isNone_iff_eq_none, Bool.not_eq_true'] at h
  exact h

end Endpoint

theorem validated (h : (f.validate matches .ok _) = true) : f.validate = .ok () := by
  split at h
  · rename_i hu
    exact hu
  · cases h

namespace Client

/- The frame a step takes off the incoming queue. -/
def taken (c : Client) : ClientAct → List Frame
  | .frame _ => c.ep.frames.take 1
  | _ => []

/-- The steps of the client, with the guards they have passed. -/
inductive StepCase (limits : NegotiatedLimits) (caps : Caps) (c : Client) :
    ClientAct → Client → Prop where
  | turn {act : ClientAct} {ep : Endpoint ClientStreamState} (hact : act ≠ .command)
      (h : c.ep.Turn limits caps (c.taken act) ep) : StepCase limits caps c act { c with ep := ep }
  | resolve {hostname : Text} {port : ℕ} (hv : (Frame.resolve 1 port hostname).validate = .ok ()) :
      StepCase limits caps c (.resolve hostname port) { c with
        nextStreamId := c.nextStreamId + 2
        commands := c.commands ++ [.resolve c.nextStreamId hostname port] }
  | openIp {address : SocketAddr}
      (hv : (Frame.openTo 1 (canonicalizeAddress address)).validate = .ok ()) :
      StepCase limits caps c (.openIp address) { c with
        nextStreamId := c.nextStreamId + 2
        commands := c.commands ++ [.openIp c.nextStreamId (canonicalizeAddress address)] }
  | openTo {id : ℕ} {address : SocketAddr} {permit : Bool} :
      StepCase limits caps c (.openTo id address permit)
        { c with commands := c.commands ++ [.openTo id (canonicalizeAddress address) permit] }
  | close {id : ℕ} :
      StepCase limits caps c (.close id) { c with commands := c.commands ++ [.close id] }
  | skipId : StepCase limits caps c .skipId { c with nextStreamId := c.nextStreamId + 2 }
  | command {cmd : ClientCommand} {rest : List ClientCommand} (hready : c.ep.ready = true)
      (hc : c.commands = cmd :: rest) :
      StepCase limits caps c .command (Client.settle { c with
          commands := rest
          started := if creates cmd then commandId cmd else c.started } (commandId cmd)
        (handleClientCommand (decide (limits.maxStreams ≤ c.ep.streams.size))
          (c.ep.entry (commandId cmd)) cmd))
  | frame {alive : Bool} {f : Frame} {rest : List Frame} (hready : c.ep.ready = true)
      (hf : c.ep.frames = f :: rest) (hping : ∀ n, f ≠ .ping n) (hpong : ∀ n, f ≠ .pong n) :
      StepCase limits caps c (.frame alive) (Client.settle
        { c with ep := { c.ep with frames := rest } } f.streamId
        (handleClientFrame limits alive (c.ep.entry f.streamId) f))
  | event {w : WorkerEvent} {rest : List WorkerEvent} (hready : c.ep.ready = true)
      (hw : c.ep.events = w :: rest) :
      StepCase limits caps c .event { c with
        ep := { c.ep.setEntry w.id (clientWorkerEvent (c.ep.entry w.id) w) with events := rest } }
  | resume {ep : Endpoint ClientStreamState} {next : Next} (h : c.ep.resume caps = some (ep, next))
      (hn : ∀ nonce, next ≠ .ping nonce) : StepCase limits caps c .resume { c with ep := ep }

theorem step_cases {limits : NegotiatedLimits} {caps : Caps} {c c' : Client} {act : ClientAct}
    (h : c.step limits caps act = some c') : StepCase limits caps c act c' := by
  have hlift : ∀ {ep : Option (Endpoint ClientStreamState)}, act ≠ .command →
      (∀ ep', ep = some ep' → c.ep.Turn limits caps (c.taken act) ep') → c.lift ep = some c' →
      StepCase limits caps c act c' := by
    intro ep hact hturn hl
    obtain ⟨ep', hep, rfl⟩ := map_eq_some_iff.mp hl
    exact .turn hact (hturn ep' hep)
  have hsend : ∀ {c0 : Client} {cmd : ClientCommand}, send caps c0 cmd = some c' →
      c' = { c0 with commands := c0.commands ++ [cmd] } := by
    intro c0 cmd hs
    obtain ⟨-, hs⟩ := ite_none_right_eq_some.mp hs
    exact (some.inj hs).symm
  cases act with
  | stream => exact hlift nofun (fun _ => .stream) h
  | pick => exact hlift nofun (fun _ => .pick) h
  | deliver => exact hlift nofun (fun _ => .deliver) h
  | keepalive => exact hlift nofun (fun _ => .keepalive) h
  | resolve =>
    obtain ⟨hok, h⟩ := ite_none_right_eq_some.mp h
    rw [hsend h]
    exact .resolve (validated (Bool.and_eq_true _ _ ▸ hok).2)
  | openIp =>
    obtain ⟨hok, h⟩ := ite_none_right_eq_some.mp h
    rw [hsend h]
    exact .openIp (validated (Bool.and_eq_true _ _ ▸ hok).2)
  | openTo =>
    rw [hsend h]
    exact .openTo
  | close id =>
    rw [hsend h]
    exact .close
  | skipId =>
    obtain ⟨-, h⟩ := ite_none_right_eq_some.mp h
    cases h
    exact .skipId
  | command =>
    obtain ⟨hready, h⟩ := ite_none_right_eq_some.mp h
    split at h
    · cases h
    rename_i hc
    cases h
    exact .command hready hc
  | frame alive =>
    obtain ⟨hready, h⟩ := ite_none_right_eq_some.mp h
    split at h
    · cases h
    rename_i f rest hf
    have htake : c.taken (.frame alive) = [f] := by rw [taken, hf]; rfl
    split at h
    · cases h
      exact .turn nofun (htake ▸ .ping hready hf)
    · cases h
      exact .turn nofun (htake ▸ .pong hready hf)
    · rename_i hping hpong
      cases h
      exact .frame hready hf hping hpong
  | event =>
    obtain ⟨hready, h⟩ := ite_none_right_eq_some.mp h
    split at h
    · cases h
    rename_i hw
    cases h
    exact .event hready hw
  | resume =>
    simp only [step, resume] at h
    split at h
    · cases h
    · rename_i hr
      cases h
      exact .turn nofun (.pinged hr)
    · rename_i hne hr
      cases h
      exact .resume hr hne
  | fail =>
    obtain ⟨hok, h⟩ := ite_none_right_eq_some.mp h
    cases h
    obtain ⟨hend, hp⟩ := Endpoint.fail_allowed hok
    exact .turn nofun (.fail hend hp)
  | teardown id =>
    simp only [step, teardown] at h
    split at h
    · rename_i hend hst hs
      cases h
      exact .turn nofun (.teardown hend hs)
    · cases h

end Client

namespace Agent

/-- The steps of the agent, with the guards they have passed. -/
inductive StepCase (limits : NegotiatedLimits) (policy : AgentPolicy) (caps : Caps) (a : Agent) :
    AgentAct → Agent → Prop where
  | turn {act : AgentAct} {fs : List Frame} {ep : Endpoint AgentStreamState}
      (h : a.ep.Turn limits caps fs ep) : StepCase limits policy caps a act { a with ep := ep }
  | frame {f : Frame} {rest : List Frame} (hready : a.ep.ready = true)
      (hf : a.ep.frames = f :: rest) (hping : ∀ n, f ≠ .ping n) (hpong : ∀ n, f ≠ .pong n) :
      StepCase limits policy caps a .frame (Agent.settle
        { a with ep := { a.ep with frames := rest } } f.streamId
        (handleAgentFrame (a.view limits policy) (a.ep.entry f.streamId) f))
  | event {w : WorkerEvent} {rest : List WorkerEvent} (hready : a.ep.ready = true)
      (hw : a.ep.events = w :: rest) :
      StepCase limits policy caps a .event { a with
        ep := { a.ep.setEntry w.id (agentWorkerEvent (a.ep.entry w.id) w) with events := rest } }
  | finish {i : ℕ} {answer : Answer} {op : Operation} {done : AgentOperation}
      {x : Entry AgentStreamState} {await : Await} (hready : a.ep.ready = true)
      (hop : a.operations[i]? = some op) (hd : op.finish policy answer = some done)
      (hok : finishAgentOperation (a.ep.entry op.id) done = .ok (x, await)) :
      StepCase limits policy caps a (.finish i answer) { a with
        operations := a.operations.eraseIdx i
        ep := { a.ep.setEntry op.id x with await := await } }
  | finishError {i : ℕ} {answer : Answer} {op : Operation} {done : AgentOperation}
      {error : MuxError} (hready : a.ep.ready = true) (hop : a.operations[i]? = some op)
      (hd : op.finish policy answer = some done)
      (herr : finishAgentOperation (a.ep.entry op.id) done = .error error) :
      StepCase limits policy caps a (.finish i answer)
        { a with operations := a.operations.eraseIdx i, ep := a.ep.fail error }
  | joinRelay {id : ℕ} : StepCase limits policy caps a (.joinRelay id)
      { a with relays := a.relays.erase id }
  | resolved {ep : Endpoint AgentStreamState} {id : ℕ} {addresses : List SocketAddr}
      (h : a.ep.resume caps = some (ep, .resolved id addresses)) :
      StepCase limits policy caps a .resume { a with
        ep := ep.setEntry id { ep.entry id with state := some (.resolved addresses) } }
  | opened {ep : Endpoint AgentStreamState} {id : ℕ}
      (h : a.ep.resume caps = some (ep, .opened id)) :
      StepCase limits policy caps a .resume { a with
        ep := ep.setEntry id ⟨some .opened, some (Stream.new limits.receiveWindow)⟩
        relays := a.relays ++ [id] }

theorem step_cases {limits : NegotiatedLimits} {policy : AgentPolicy} {caps : Caps} {a a' : Agent}
    {act : AgentAct} (h : a.step limits policy caps act = some a') :
    StepCase limits policy caps a act a' := by
  have hlift : ∀ {ep : Option (Endpoint AgentStreamState)},
      (∀ ep', ep = some ep' → a.ep.Turn limits caps [] ep') → a.lift ep = some a' →
      StepCase limits policy caps a act a' := by
    intro ep hturn hl
    obtain ⟨ep', hep, rfl⟩ := map_eq_some_iff.mp hl
    exact .turn (hturn ep' hep)
  cases act with
  | stream => exact hlift (fun _ => .stream) h
  | pick => exact hlift (fun _ => .pick) h
  | deliver => exact hlift (fun _ => .deliver) h
  | keepalive => exact hlift (fun _ => .keepalive) h
  | frame =>
    obtain ⟨hready, h⟩ := ite_none_right_eq_some.mp h
    split at h
    · cases h
    rename_i hf
    split at h
    · cases h
      exact .turn (.ping hready hf)
    · cases h
      exact .turn (.pong hready hf)
    · rename_i hping hpong
      cases h
      exact .frame hready hf hping hpong
  | event =>
    obtain ⟨hready, h⟩ := ite_none_right_eq_some.mp h
    split at h
    · cases h
    rename_i hw
    cases h
    exact .event hready hw
  | finish i answer =>
    obtain ⟨hready, h⟩ := ite_none_right_eq_some.mp h
    split at h
    · cases h
    rename_i hop
    split at h
    · cases h
    rename_i hd
    split at h
    · rename_i hok
      cases h
      exact .finish hready hop hd hok
    · rename_i herr
      cases h
      exact .finishError hready hop hd herr
  | joinRelay id =>
    obtain ⟨-, h⟩ := ite_none_right_eq_some.mp h
    split at h
    · obtain ⟨-, h⟩ := ite_none_right_eq_some.mp h
      cases h
      exact .joinRelay
    · cases h
  | resume =>
    simp only [step, resume] at h
    split at h
    · cases h
    · rename_i hr
      cases h
      exact .turn (.resume hr)
    · rename_i hr
      cases h
      exact .turn (.pinged hr)
    · rename_i hr
      cases h
      exact .resolved hr
    · rename_i hr
      cases h
      exact .opened hr
  | fail =>
    obtain ⟨hok, h⟩ := ite_none_right_eq_some.mp h
    cases h
    obtain ⟨hend, hp⟩ := Endpoint.fail_allowed hok
    exact .turn (.fail hend hp)
  | teardown id =>
    simp only [step, teardown] at h
    split at h
    · rename_i hend hst hs
      cases h
      exact .turn (.teardown hend hs)
    · cases h

end Agent

end Alighieri.Rdp
