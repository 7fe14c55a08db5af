import Alighieri.Rdp.Side
import Alighieri.Rdp.Handlers

/-!
# The queues of an endpoint and its driver

What a step of either end does to the queues, the keepalive and the driver, whatever stream it is
about.
-/

namespace Alighieri.Rdp
open Net List Endpoint Await

variable {i : ℕ} {P : ℕ → Await → Prop} {x : Entry ClientStreamState} {r : ClientHandled}
  {f : Frame} {done : AgentOperation} {policy : AgentPolicy} {act : ClientAct}

structure Queues where
  control : List Frame
  ordered : List Frame
  writer : Option Frame
  reader : Option Frame
  frames : List Frame
  await : Await
  ping : Option ℕ
  ended : Option MuxError

def Endpoint.queues {σ : Type} (e : Endpoint σ) : Queues where
  control := e.control
  ordered := e.ordered
  writer := e.writer
  reader := e.reader
  frames := e.frames
  await := e.await
  ping := e.ping
  ended := e.ended

/- The frames with which a client announces a stream identifier. -/
def Frame.registers : Frame → Option ℕ
  | .resolve id _ _ | .openTo id _ => some id
  | _ => none

@[simp] theorem filterMap_cons_toList {α β : Type} (p : α → Option β) (a : α) (l : List α) :
    (a :: l).filterMap p = (p a).toList ++ l.filterMap p := by
  cases h : p a <;> simp [h]

theorem Stream.step_registers {maxData id : ℕ} {s s' : Stream} {act : StreamAct} {eff : Effect}
    (h : s.step maxData id act = some (s', eff)) : ∀ f ∈ eff.frames, f.registers = none := by
  intro f hf
  rcases Stream.step_frames h hf with ⟨_, -, rfl⟩ | rfl | ⟨_, rfl⟩ | ⟨_, -, rfl⟩ <;> rfl

/- Only the handlers of the client's commands announce a stream. -/
def Await.registers (a : Await) : List ℕ := a.hand.filterMap Frame.registers

def Await.Silent (id : ℕ) (a : Await) : Prop := a.Plain id ∧ a.registers = []

theorem Await.silent_idle (id : ℕ) : Await.Silent id .idle := ⟨plain_idle id, rfl⟩

theorem Await.silent_closeGate (id : ℕ) (reason : CloseReason) :
    Await.Silent id (.closeGate id reason) := ⟨plain_closeGate id reason, rfl⟩

/- `P i a` says that a handler for the stream `i` may leave the await `a`. -/
inductive QueueMove (P : ℕ → Await → Prop) (q : Queues) : Queues → Prop where
  | quiet : QueueMove P q q
  | worked (fs : List Frame) (h : ∀ f ∈ fs, f.lane ≠ none ∧ f.registers = none) :
      QueueMove P q { q with ordered := q.ordered ++ fs }
  | pickControl {f : Frame} {cs : List Frame} (hw : q.writer = none) (hc : q.control = f :: cs) :
      QueueMove P q { q with control := cs, writer := some f }
  | pickOrdered {f : Frame} {os : List Frame} (hw : q.writer = none) (ho : q.ordered = f :: os) :
      QueueMove P q { q with ordered := os, writer := some f }
  | delivered {f : Frame} (hr : q.reader = some f) :
      QueueMove P q { q with reader := none, frames := q.frames ++ [f] }
  | called {i : ℕ} {a : Await} (hrun : q.ended = none) (hidle : q.await = .idle) (ha : P i a) :
      QueueMove P q { q with await := a }
  | handled {f : Frame} {rest : List Frame} {a : Await} (hrun : q.ended = none)
      (hidle : q.await = .idle) (hf : q.frames = f :: rest) (hl : f.lane = some f.streamId)
      (ha : P f.streamId a) : QueueMove P q { q with frames := rest, await := a }
  | rejected {f : Frame} {rest : List Frame} (error : MuxError) (hrun : q.ended = none)
      (hf : q.frames = f :: rest) (hl : f.lane = some f.streamId) :
      QueueMove P q { q with frames := rest, ended := some error }
  | pinged {n : ℕ} {rest : List Frame} (hidle : q.await = .idle) (hf : q.frames = .ping n :: rest) :
      QueueMove P q { q with frames := rest, await := .control (.pong n) .done }
  | ponged {n : ℕ} {rest : List Frame} (hf : q.frames = .pong n :: rest) (hp : q.ping = some n) :
      QueueMove P q { q with frames := rest, ping := none }
  | mismatched {n : ℕ} {rest : List Frame} (error : MuxError) (hf : q.frames = .pong n :: rest)
      (hp : q.ping ≠ some n) : QueueMove P q { q with frames := rest, ended := some error }
  | ticked (n : ℕ) (hidle : q.await = .idle) (hp : q.ping = none) :
      QueueMove P q { q with await := .control (.ping n) (.ping n) }
  | queued {f : Frame} {next : Next} (ha : q.await = .ordered f next) :
      QueueMove P q { q with ordered := q.ordered ++ [f], await := .idle }
  | ponging {n : ℕ} (ha : q.await = .control (.pong n) .done) :
      QueueMove P q { q with control := q.control ++ [.pong n], await := .idle }
  | pinging {n : ℕ} (ha : q.await = .control (.ping n) (.ping n)) :
      QueueMove P q { q with control := q.control ++ [.ping n], await := .idle, ping := some n }
  | gated {a : Await} (hh : q.await.hand = []) (hc : ∀ f next, q.await ≠ .control f next)
      (ha : a = .idle ∨ ∃ i reason, a = .closeSend i reason) : QueueMove P q { q with await := a }
  | closed {i : ℕ} {reason : CloseReason} (ha : q.await = .closeSend i reason) :
      QueueMove P q { q with ordered := q.ordered ++ [.close i reason], await := .idle }
  | stopped (error : MuxError) : QueueMove P q { q with ended := some error }

/- Keepalive frames are sent through the control queue and the others through the ordered one. -/
def Await.Tidy : Await → Prop
  | .control f next => ∃ n, (f = .ping n ∧ next = .ping n) ∨ (f = .pong n ∧ next = .done)
  | .ordered f next => f.lane ≠ none ∧ ∀ n, next ≠ .ping n
  | _ => True

variable {a : Await}

theorem Await.About.tidy (h : a.About i) (hn : ∀ n, a.next ≠ .ping n) : a.Tidy := by
  have hon := h.1
  cases a with
  | control => cases hon
  | ordered =>
    refine ⟨?_, hn⟩
    intro hl
    simp [on, hl] at hon
  | _ => trivial

theorem Await.Plain.no_ping (h : a.Plain i) (n : ℕ) : a.next ≠ .ping n := by
  rw [h.2]
  exact fun hn => by cases hn

structure Queues.Tidy (q : Queues) : Prop where
  control : ∀ f ∈ q.control, f.lane = none
  ordered : ∀ f ∈ q.ordered, f.lane ≠ none
  await : q.await.Tidy

theorem QueueMove.await_inv {Q : Await → Prop} {q q' : Queues} (hidle : Q .idle)
    (hP : ∀ i a, P i a → Q a) (hping : ∀ n, Q (.control (.ping n) (.ping n)))
    (hpong : ∀ n, Q (.control (.pong n) .done)) (hsend : ∀ i reason, Q (.closeSend i reason))
    (h : QueueMove P q q') (hq : Q q.await) : Q q'.await := by
  cases h with
  | called hrun hi ha | handled hrun hi hf hl ha => exact hP _ _ ha
  | pinged => exact hpong _
  | ticked n => exact hping n
  | queued | ponging | pinging | closed => exact hidle
  | gated hh hc ha =>
    rcases ha with rfl | ⟨i, reason, rfl⟩
    · exact hidle
    · exact hsend i reason
  | _ => exact hq

theorem Queues.Tidy.move {q q' : Queues} (ht : q.Tidy) (hP : ∀ i a, P i a → a.Tidy)
    (h : QueueMove P q q') : q'.Tidy := by
  have hawait : q'.await.Tidy := h.await_inv (by trivial) hP (fun n => ⟨n, .inl ⟨rfl, rfl⟩⟩)
    (fun n => ⟨n, .inr ⟨rfl, rfl⟩⟩) (fun _ _ => by trivial) ht.await
  have hput : ∀ {p : Frame → Prop} {fs gs : List Frame}, (∀ f ∈ fs, p f) → (∀ g ∈ gs, p g) →
      ∀ f ∈ fs ++ gs, p f := by
    intro p fs gs hfs hgs f hf
    rcases mem_append.mp hf with hf | hf
    · exact hfs f hf
    · exact hgs f hf
  refine ⟨?_, ?_, hawait⟩
  · cases h with
    | pickControl hw hc =>
      exact fun f hf => ht.control f (by rw [hc]; exact mem_cons_of_mem _ hf)
    | ponging | pinging => exact hput ht.control (by simp [Frame.lane])
    | _ => exact ht.control
  · cases h with
    | worked fs hfs => exact hput ht.ordered fun f hf => (hfs f hf).1
    | pickOrdered hw ho => exact fun f hf => ht.ordered f (by rw [ho]; exact mem_cons_of_mem _ hf)
    | queued ha =>
      have hlane := ht.await
      rw [ha] at hlane
      exact hput ht.ordered (by simpa using hlane.1)
    | closed ha => exact hput ht.ordered (by simp [Frame.lane])
    | _ => exact ht.ordered

theorem QueueMove.incoming {q q' : Queues} (h : QueueMove P q q') :
    ∀ f ∈ q'.reader.toList ++ q'.frames, f ∈ q.reader.toList ++ q.frames := by
  have htail : ∀ {f : Frame} {rest : List Frame}, q.frames = f :: rest →
      ∀ g ∈ q.reader.toList ++ rest, g ∈ q.reader.toList ++ q.frames := by
    intro f rest hf g hg
    rw [hf]
    rcases mem_append.mp hg with hg | hg
    · exact mem_append_left _ hg
    · exact mem_append_right _ (mem_cons_of_mem f hg)
  cases h with
  | delivered hr =>
    intro g hg
    rw [hr]
    rcases mem_append.mp hg with hg | hg
    · cases hg
    · rcases mem_append.mp hg with hg | hg
      · exact mem_append_right _ hg
      · exact mem_append_left _ hg
  | handled hrun hi hf hl ha | rejected error hrun hf hl | pinged hi hf | ponged hf hp
  | mismatched error hf hp => exact htail hf
  | _ => exact fun f hf => hf

namespace Endpoint

variable {σ : Type} {e e' : Endpoint σ} {limits : NegotiatedLimits} {caps : Caps}

theorem streamStep_queues {a : StreamAct} (h : e.streamStep limits caps i a = some e') :
    QueueMove P e.queues e'.queues := by
  obtain ⟨s, s', eff, r, -, -, hstep, rfl⟩ := streamStep_cases h
  refine .worked eff.frames fun f hf => ⟨?_, ?_⟩
  · rw [(Stream.step_lane hstep).1 f hf]
    exact fun hn => by cases hn
  · exact Stream.step_registers hstep f hf

theorem pick_queues {raced : Bool} (h : e.pick raced = some e') : QueueMove P e.queues e'.queues := by
  obtain ⟨-, hw, ⟨f, cs, hc, rfl⟩ | ⟨f, os, ho, rfl⟩⟩ := pick_cases h
  · exact .pickControl hw hc
  · exact .pickOrdered hw ho

theorem deliver_queues (h : e.deliver caps = some e') : QueueMove P e.queues e'.queues := by
  obtain ⟨f, -, hr, rfl⟩ := deliver_cases h
  exact .delivered hr

theorem keepalive_queues {nonce : ℕ} (h : e.keepalive nonce = some e') :
    QueueMove P e.queues e'.queues := by
  obtain ⟨-, hidle, rfl | ⟨hp, rfl⟩⟩ := keepalive_cases h
  · exact .quiet
  · exact .ticked nonce hidle hp

theorem onPong_queues {n : ℕ} {rest : List Frame} (hf : e.frames = .pong n :: rest) :
    QueueMove P e.queues (({ e with frames := rest } : Endpoint σ).onPong n).queues := by
  unfold onPong
  split
  · rename_i hp
    have hp' : e.ping = some n := by simpa using hp
    exact .ponged hf hp'
  · rename_i hp
    have hp' : e.ping ≠ some n := by simpa using hp
    exact .mismatched _ hf hp'

theorem resume_queues {next : Next} (ht : e.queues.Tidy) (h : e.resume caps = some (e', next)) :
    ((∀ n, next ≠ .ping n) → QueueMove P e.queues e'.queues) ∧
    ∀ n, next = .ping n → QueueMove P e.queues { e'.queues with ping := some n } := by
  have hawait := ht.await
  cases (resume_cases h).2 with
  | ordered ha =>
    rw [show e.queues.await = _ from ha] at hawait
    exact ⟨fun _ => .queued ha, fun n hn => absurd hn (hawait.2 n)⟩
  | control ha =>
    rw [show e.queues.await = _ from ha] at hawait
    obtain ⟨n, ⟨rfl, rfl⟩ | ⟨rfl, rfl⟩⟩ := hawait
    · refine ⟨fun hn => absurd rfl (hn n), ?_⟩
      rintro m ⟨⟩
      exact .pinging ha
    · exact ⟨fun _ => .ponging ha, fun m hm => by cases hm⟩
  | closeFound ha | pushed ha =>
    refine ⟨fun _ => ?_, nofun⟩
    exact .gated (by simp [queues, ha, hand]) (by simp [queues, ha]) (.inl rfl)
  | closeTaken ha =>
    refine ⟨fun _ => ?_, nofun⟩
    exact .gated (by simp [queues, ha, hand]) (by simp [queues, ha]) (.inr ⟨_, _, rfl⟩)
  | closeSent ha => exact ⟨fun _ => .closed ha, nofun⟩
  | refused => exact ⟨fun _ => .stopped _, nofun⟩

theorem Turn.queues {fs : List Frame} (ht : e.queues.Tidy) (h : e.Turn limits caps fs e') :
    QueueMove P e.queues e'.queues := by
  cases h with
  | stream h => exact streamStep_queues h
  | pick h => exact pick_queues h
  | deliver h => exact deliver_queues h
  | keepalive h => exact keepalive_queues h
  | ping hready hf => exact .pinged (ready_iff.mp hready).2 hf
  | pong hready hf => exact onPong_queues hf
  | resume h => exact (resume_queues ht h).1 nofun
  | pinged h => exact (resume_queues ht h).2 _ rfl
  | fail => exact .stopped _
  | teardown => exact .quiet

end Endpoint

/- The handlers suspend only on behalf of their own stream. -/

theorem CommandCase.await {full : Bool} {cmd : ClientCommand} (h : CommandCase full x r cmd) :
    r.await.Plain (Client.commandId cmd) := by
  cases h with
  | keep => exact plain_idle _
  | resolve | openTo | openIp | closeEarly => exact plain_ordered rfl
  | closeOpened => exact plain_closeGate _ _

theorem FlowCase.silent {limits : NegotiatedLimits} {standing : Standing} {s s' : Option Stream}
    {await : Await} (h : FlowCase limits standing s f s' await) : await.Silent f.streamId := by
  cases h with
  | data => exact ⟨plain_creditGate _ _, rfl⟩
  | _ => exact silent_idle _

theorem ClientFrameCase.silent {limits : NegotiatedLimits} {alive : Bool}
    (h : ClientFrameCase limits alive x r f) : r.await.Silent f.streamId := by
  cases h with
  | flow hc => exact hc.silent
  | abandoned | closeEarly => exact ⟨plain_ordered rfl, rfl⟩
  | closeOpened => exact silent_closeGate _ _
  | _ => exact silent_idle _

theorem AgentFrameCase.silent {v : AgentView} {x : Entry AgentStreamState} {r : AgentHandled}
    (h : AgentFrameCase v x r f) : r.await.Silent f.streamId := by
  cases h with
  | flow hc => exact hc.silent
  | refusedNew code diagnostic hf =>
    rcases hf with ⟨port, hostname, rfl⟩ | ⟨address, rfl⟩ <;> exact ⟨plain_ordered rfl, rfl⟩
  | resolve | connectNew | connect | closeLast | closeCancelled => exact silent_idle _
  | refused | closeStale | cancel | closeResolved => exact ⟨plain_ordered rfl, rfl⟩
  | closeOpened => exact silent_closeGate _ _

/- What a finished operation may leave to be sent. -/
inductive Await.Finishing (id : ℕ) : Await → Prop where
  | idle : Finishing id .idle
  | refused (code : OpenErrorCode) (diagnostic : Text) :
      Finishing id (.ordered (openErrorFrame id code diagnostic) .done)
  | resolved (addresses : List SocketAddr) :
      Finishing id (.ordered (.resolveOk id addresses) (.resolved id addresses))
  | opened (bound : SocketAddr) : Finishing id (.ordered (.openOk id bound) (.opened id))

theorem Await.Finishing.about {id : ℕ} (h : a.Finishing id) : a.About id := by
  cases h with
  | idle => exact about_idle _
  | refused | resolved | opened => exact about_ordered _ rfl

def AgentOperation.id : AgentOperation → ℕ
  | .resolved id _ | .opened id _ => id

theorem FinishCase.await {x y : Entry AgentStreamState} {await : Await}
    (h : FinishCase x y await done) : await.Finishing done.id := by
  cases h with
  | gone => exact .idle
  | resolved => exact .resolved _
  | unresolved | unopened => exact .refused _ _
  | opened => exact .opened _

theorem Operation.finish_id {op : Operation} {answer : Answer}
    (h : op.finish policy answer = some done) : done.id = op.id := by
  cases op <;> cases answer <;> cases h <;> rfl

/- What the handlers of one step of the client may leave to be sent. -/
def ClientAct.Leaves (act : ClientAct) (i : ℕ) (a : Await) : Prop :=
  a.Plain i ∧ (act = .command ∨ a.registers = [])

theorem ClientAct.Leaves.tidy (h : act.Leaves i a) :
    a.Tidy := h.1.1.tidy h.1.no_ping

theorem Client.step_queues {limits : NegotiatedLimits} {caps : Caps} {c c' : Client}
    (ht : c.ep.queues.Tidy) (h : c.step limits caps act = some c') :
    QueueMove act.Leaves c.ep.queues c'.ep.queues := by
  cases Client.step_cases h with
  | turn hact hturn => exact hturn.queues ht
  | command hready hc =>
    rename_i cmd rest
    obtain ⟨hrun, hidle⟩ := ready_iff.mp hready
    cases hr : handleClientCommand (decide (limits.maxStreams ≤ c.ep.streams.size))
      (c.ep.entry (Client.commandId cmd)) cmd with
    | ok r => exact .called hrun hidle ⟨(handleClientCommand_case hr).await, .inl rfl⟩
    | error error => exact .stopped error
  | frame hready hf hping hpong =>
    rename_i alive f rest
    obtain ⟨hrun, hidle⟩ := ready_iff.mp hready
    have hlane := Frame.lane_streamId hping hpong
    cases hr : handleClientFrame limits alive (c.ep.entry f.streamId) f with
    | ok r =>
      obtain ⟨hplain, hnone⟩ := (handleClientFrame_case hr).silent
      exact .handled hrun hidle hf hlane ⟨hplain, .inr hnone⟩
    | error error => exact .rejected error hrun hf hlane
  | resume hr hn => exact (resume_queues ht hr).1 hn
  | _ => exact .quiet

def AgentLeaves (i : ℕ) (a : Await) : Prop := a.Silent i ∨ a.Finishing i

theorem AgentLeaves.tidy (h : AgentLeaves i a) : a.Tidy := by
  rcases h with ⟨h, -⟩ | h
  · exact h.1.tidy h.no_ping
  · refine h.about.tidy fun n hn => ?_
    cases h <;> cases hn

theorem Agent.step_queues {limits : NegotiatedLimits} {caps : Caps} {a a' : Agent}
    {act : AgentAct} (ht : a.ep.queues.Tidy) (h : a.step limits policy caps act = some a') :
    QueueMove AgentLeaves a.ep.queues a'.ep.queues := by
  cases Agent.step_cases h with
  | turn hturn => exact hturn.queues ht
  | frame hready hf hping hpong =>
    rename_i f rest
    obtain ⟨hrun, hidle⟩ := ready_iff.mp hready
    have hlane := Frame.lane_streamId hping hpong
    cases hr : handleAgentFrame (a.view limits policy) (a.ep.entry f.streamId) f with
    | ok r => exact .handled hrun hidle hf hlane (.inl (handleAgentFrame_case hr).silent)
    | error error => exact .rejected error hrun hf hlane
  | event | joinRelay => exact .quiet
  | finish hready hop hd hok =>
    obtain ⟨hrun, hidle⟩ := ready_iff.mp hready
    exact .called hrun hidle (.inr (finishAgentOperation_case hok).await)
  | finishError => exact .stopped _
  | resolved hr | opened hr => exact (resume_queues ht hr).1 nofun

end Alighieri.Rdp
