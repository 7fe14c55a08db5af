import Alighieri.Rdp.Conform

/-!
# Backpressure between the two drivers (mux.rs:1095-1246, 1364-1436, 1902-2005)

A driver that waits for room in an outgoing queue of its own takes no frame from its incoming one.
A frame under way keeps some task of the session moving unless both directions are full from end to
end; `jammedRun` fills them. A `credit_worker` reserves its slot before it has the send gate, which
the `outbound_worker` keeps while it waits for a slot, so a queue whose slots are all reserved can
stand still on its own.
-/

namespace Alighieri.Rdp
open Net Lts

/- The effects that need room in a queue. -/
def Effect.waits : Effect → Bool
  | .push _ | .reserve | .event _ => true
  | _ => false

namespace Stream

variable {s : Stream} (maxData id : ℕ)

/- A worker that holds the send gate waits for nothing but a slot of the ordered queue. -/
theorem outbound_holding (h : s.outPc.holdsGate = true) :
    ∃ s' eff, s.outboundStep maxData id = some (s', eff) ∧
      (eff.waits = false ∨ ∃ f, eff = .push f) := by
  cases hat : s.outPc <;> rw [hat] at h <;> simp [outboundStep, hat, Effect.waits] at h ⊢

theorem credit_holding (h : s.creditPc.holdsGates = true) :
    ∃ s' eff, s.creditStep id = some (s', eff) ∧ eff.waits = false := by
  cases hat : s.creditPc with
  | take =>
    simp only [creditStep, hat]
    split
    · exact ⟨_, _, rfl, rfl⟩
    · split <;> exact ⟨_, _, rfl, rfl⟩
  | publish credit => exact ⟨_, _, by rw [creditStep, hat], rfl⟩
  | update credit =>
    simp only [creditStep, hat]
    split <;> exact ⟨_, _, rfl, rfl⟩
  | _ => simp [hat] at h

end Stream

namespace Endpoint

variable {σ τ : Type}

/- The frames on their way from one end to the other. -/
def toward (e : Endpoint σ) (wire : List Frame) (e' : Endpoint τ) : List Frame :=
  e.control ++ e.ordered ++ e.writer.toList ++ wire ++ e'.reader.toList ++ e'.frames

/- The driver waits for room in an outgoing queue, the writer for the wire and the reader for the
driver. -/
structure Full (caps : Caps) (e : Endpoint σ) : Prop where
  await : e.await ≠ .idle
  queue : caps.control ≤ e.control.length ∨ e.orderedRoom caps = false
  writer : e.writer ≠ none
  reader : e.reader ≠ none
  frames : caps.frames ≤ e.frames.length

variable [StreamState σ] [StreamState τ] {limits : NegotiatedLimits} {caps caps' : Caps}
  {e : Endpoint σ} {e' : Endpoint τ} {id : ℕ} {s : Stream} {wire : List Frame}

/- The end is running, no permits take up the whole of its ordered queue, and none of its tasks can
take a step. -/
structure Stuck (limits : NegotiatedLimits) (caps : Caps) (e : Endpoint σ) : Prop where
  sides : ∃ known : ℕ → Bool, ∀ id, (e.side (known id) id).Sound limits id
  running : e.ended = none
  slot : e.reserved < caps.ordered
  pick : e.pick false = none
  deliver : e.deliver caps = none
  resume : e.resume caps = none
  worker : ∀ id a, a.isWorker = true → e.streamStep limits caps id a = none
  driver : e.ready = true → e.frames = []

namespace Stuck

variable (h : e.Stuck limits caps)
include h

theorem writing (hq : e.control ≠ [] ∨ e.ordered ≠ []) : e.writer ≠ none := by
  intro hw
  have hp := h.pick
  simp only [Endpoint.pick, h.running, hw] at hp
  repeat' split at hp
  all_goals simp_all

theorem frames_full (hr : e.reader ≠ none) : caps.frames ≤ e.frames.length := by
  have hd := h.deliver
  obtain ⟨f, hf⟩ := Option.ne_none_iff_exists'.mp hr
  simpa [Endpoint.deliver, h.running, hf] using hd

theorem waiting (hf : e.frames ≠ []) : e.await ≠ .idle := fun hidle =>
  hf (h.driver (by simp [ready, h.running, hidle]))

theorem no_room {a : StreamAct} (ha : a.isWorker = true) (hs : e.live.lookup id = some s)
    {s' : Stream} {eff : Effect} (hstep : s.step limits.maxData id a = some (s', eff))
    (heff : eff.waits = false ∨ ∃ f, eff = .push f) : e.orderedRoom caps = false := by
  have hw := h.worker id a ha
  simp only [streamStep, h.running, hs, hstep, Option.isSome_none, Bool.false_and, if_neg,
    Bool.false_eq_true, not_false_eq_true] at hw
  rcases heff with heff | ⟨f, rfl⟩
  · cases eff <;> first | cases hw | cases heff
  · have hroom : (e.setStream id s').orderedRoom caps = false := by simpa [effect] using hw
    exact hroom

theorem credit_gate (hs : e.live.lookup id = some s) (hgate : s.creditPc.holdsGates = true) :
    e.orderedRoom caps = false := by
  obtain ⟨s', eff, hstep, heff⟩ := s.credit_holding id hgate
  exact h.no_room (a := .credit) rfl hs hstep (.inl heff)

theorem send_gate (hs : e.live.lookup id = some s) (hd : s.driverGate = false)
    (hgate : s.sendGateFree = false) : e.orderedRoom caps = false := by
  cases hout : s.outPc.holdsGate with
  | true =>
    obtain ⟨s', eff, hstep, heff⟩ := Stream.outbound_holding limits.maxData id hout
    exact h.no_room (a := .outbound) rfl hs hstep heff
  | false =>
    refine h.credit_gate hs ?_
    rw [Stream.sendGateFree, hout, hd] at hgate
    simpa using hgate

/-- A driver that waits has one of its outgoing queues full before it. -/
theorem blocked (ha : e.await ≠ .idle) :
    caps.control ≤ e.control.length ∨ e.orderedRoom caps = false := by
  obtain ⟨known, hside⟩ := h.sides
  have hr := h.resume
  simp only [Endpoint.resume, h.running] at hr
  cases hat : e.await with
  | idle => exact absurd hat ha
  | ordered f next => exact .inr (by simpa [hat] using hr)
  | control f next => exact .inl (by simpa [hat] using hr)
  | closeGate id reason =>
    have hon : (e.side (known id) id).await = .closeGate id reason := side_await hat (if_pos rfl)
    obtain ⟨-, s, hs, -⟩ := (hside id).gate id reason hon
    have hd : s.driverGate = false := (hside id).no_driverGate (by simp [hon]) s hs
    refine .inr (h.send_gate hs hd (Bool.eq_false_iff.mpr fun hfree => ?_))
    have hlive : e.live.lookup id = some s := hs
    have hc : e.resumeClose id reason = none := by simpa [hat] using hr
    simp only [resumeClose, hlive, hfree] at hc
    split_ifs at hc
  | closeSend id reason =>
    obtain ⟨-, s, hs, -⟩ := (hside id).send id reason (side_await hat (if_pos rfl))
    have hlive : e.live.lookup id = some s := hs
    exact .inr (by simpa [hat, hlive] using hr)
  | creditGate id payload =>
    obtain ⟨-, st, hst, ho⟩ := (hside id).credit id payload (side_await hat (if_pos rfl))
    obtain ⟨s, hs, -⟩ := (hside id).opened st hst ho
    refine .inr (h.credit_gate hs ?_)
    by_contra hgate
    have hlive : e.live.lookup id = some s := hs
    have hfree : s.receiveGateFree = true := by simpa [Stream.receiveGateFree] using hgate
    cases hp : s.pushInbound payload <;> simp [hat, hlive, hfree, hp] at hr

theorem queued (ha : e.await ≠ .idle) : e.control ≠ [] ∨ e.ordered ≠ [] := by
  rcases h.blocked ha with hfull | hroom
  · exact .inl (List.ne_nil_of_length_pos (Nat.lt_of_lt_of_le caps.control_pos hfull))
  · have hlen : caps.ordered ≤ e.ordered.length + e.reserved := by simpa [orderedRoom] using hroom
    have hslot := h.slot
    exact .inr (List.ne_nil_of_length_pos (by omega))

end Stuck

/- One direction of a session in which nothing moves. -/
structure Link (limits : NegotiatedLimits) (caps caps' : Caps) (e : Endpoint σ)
    (wire : List Frame) (e' : Endpoint τ) : Prop where
  sender : e.Stuck limits caps
  receiver : e'.Stuck limits caps'
  send : e.writer ≠ none → caps.wire ≤ wire.length
  receive : wire ≠ [] → e'.reader ≠ none

namespace Link

variable (h : Link limits caps caps' e wire e')
include h

/-- A frame on its way backs up to the receiver's driver, which waits. -/
theorem waiting (hf : e.toward wire e' ≠ []) : e'.await ≠ .idle := by
  have hframes : e'.reader ≠ none → e'.frames ≠ [] := fun hr =>
    List.ne_nil_of_length_pos (Nat.lt_of_lt_of_le caps'.frames_pos (h.receiver.frames_full hr))
  have hwire : e.writer ≠ none → wire ≠ [] := fun hw =>
    List.ne_nil_of_length_pos (Nat.lt_of_lt_of_le caps.wire_pos (h.send hw))
  refine h.receiver.waiting fun hempty => hf ?_
  have hr : e'.reader = none := by_contra fun hr => hframes hr hempty
  have hw : wire = [] := by_contra fun hw => h.receive hw hr
  have hout : e.writer = none := by_contra fun hout => hwire hout hw
  have hq : e.control = [] ∧ e.ordered = [] := by
    by_contra hq
    exact h.sender.writing (by tauto) hout
  simp [toward, hempty, hr, hw, hout, hq]

/-- Before a driver that waits every place of the direction is taken. -/
theorem full (ha : e.await ≠ .idle) : e.writer ≠ none ∧ caps.wire ≤ wire.length ∧
    e'.reader ≠ none ∧ caps'.frames ≤ e'.frames.length := by
  have hw := h.sender.writing (h.sender.queued ha)
  have hwire := h.send hw
  have hr := h.receive (List.ne_nil_of_length_pos (Nat.lt_of_lt_of_le caps.wire_pos hwire))
  exact ⟨hw, hwire, hr, h.receiver.frames_full hr⟩

end Link

end Endpoint

/- The steps of the session's own tasks; the others are calls on it, ticks of its timers and its
end. -/
def ClientAct.ofTask : ClientAct → Bool
  | .stream _ a => a.isWorker
  | .pick _ | .deliver | .command | .frame _ | .event | .resume => true
  | _ => false

def AgentAct.ofTask : AgentAct → Bool
  | .stream _ a => a.isWorker
  | .pick _ | .deliver | .frame | .event | .finish _ _ | .joinRelay _ | .resume => true
  | _ => false

def SessionAct.ofTask : SessionAct → Bool
  | .client a => a.ofTask
  | .agent a => a.ofTask
  | _ => true

namespace Session

variable {u : Setup} {s : Session}

/- The frames queued or in flight. -/
def underWay (s : Session) : List Frame :=
  s.client.ep.toward s.up s.agent.ep ++ s.agent.ep.toward s.down s.client.ep

/- Both directions are full from end to end, and both drivers wait. -/
structure Jammed (u : Setup) (s : Session) : Prop where
  client : s.client.ep.Full u.client
  agent : s.agent.ep.Full u.agent
  up : u.client.wire ≤ s.up.length
  down : u.agent.wire ≤ s.down.length

/- The ends run, each with a slot that no permit holds, and no task can take a step. -/
structure Still (u : Setup) (s : Session) : Prop where
  conforms : s.Conforms u
  running : s.client.ep.ended = none ∧ s.agent.ep.ended = none
  slots : s.client.ep.reserved < u.client.ordered ∧ s.agent.ep.reserved < u.agent.ordered
  disabled : ∀ act : SessionAct, act.ofTask = true → s.step u act = none

namespace Still

variable (h : s.Still u)
include h

theorem client : s.client.ep.Stuck u.limits u.client := by
  have hc : ∀ a : ClientAct, a.ofTask = true → s.client.step u.limits u.client a = none :=
    fun a ha => by simpa [step] using h.disabled (.client a) ha
  refine ⟨⟨_, h.conforms.client.sound.sides⟩, h.running.1, h.slots.1, ?_, ?_, ?_, fun id a ha => ?_,
    fun hready => ?_⟩
  · simpa [Client.step, Client.lift] using hc (.pick false) rfl
  · simpa [Client.step, Client.lift] using hc .deliver rfl
  · have hr := hc .resume rfl
    simp only [Client.step, Client.resume] at hr
    split at hr <;> first | assumption | cases hr
  · simpa [Client.step, Client.lift] using hc (.stream id a) ha
  · have hf := hc (.frame true) rfl
    simp only [Client.step, Client.frame, hready, if_true] at hf
    split at hf
    · assumption
    · split at hf <;> cases hf

theorem agent : s.agent.ep.Stuck u.limits u.agent := by
  have ha : ∀ a : AgentAct, a.ofTask = true →
      s.agent.step u.limits u.policy u.agent a = none := fun a ha => by
    simpa [step] using h.disabled (.agent a) ha
  obtain ⟨run, hspoken⟩ := h.conforms.agent
  refine ⟨⟨_, hspoken.sound.sides⟩, h.running.2, h.slots.2, ?_, ?_, ?_, fun id a hw => ?_,
    fun hready => ?_⟩
  · simpa [Agent.step, Agent.lift] using ha (.pick false) rfl
  · simpa [Agent.step, Agent.lift] using ha .deliver rfl
  · have hr := ha .resume rfl
    simp only [Agent.step, Agent.resume] at hr
    split at hr <;> first | assumption | cases hr
  · simpa [Agent.step, Agent.lift] using ha (.stream id a) hw
  · have hf := ha .frame rfl
    simp only [Agent.step, Agent.frame, hready, if_true] at hf
    split at hf
    · assumption
    · split at hf <;> cases hf

theorem up : Endpoint.Link u.limits u.client u.agent s.client.ep s.up s.agent.ep := by
  refine ⟨h.client, h.agent, fun hw => ?_, fun hup hr => ?_⟩
  · obtain ⟨f, hf⟩ := Option.ne_none_iff_exists'.mp hw
    simpa [step, sendUp, Endpoint.depart, h.running, hf] using h.disabled .sendUp rfl
  · obtain ⟨f, rest, hcons⟩ := List.exists_cons_of_ne_nil hup
    simpa [step, recvUp, Endpoint.arrive, h.running, hr, hcons] using h.disabled .recvUp rfl

theorem down : Endpoint.Link u.limits u.agent u.client s.agent.ep s.down s.client.ep := by
  refine ⟨h.agent, h.client, fun hw => ?_, fun hdown hr => ?_⟩
  · obtain ⟨f, hf⟩ := Option.ne_none_iff_exists'.mp hw
    simpa [step, sendDown, Endpoint.depart, h.running, hf] using h.disabled .sendDown rfl
  · obtain ⟨f, rest, hcons⟩ := List.exists_cons_of_ne_nil hdown
    simpa [step, recvDown, Endpoint.arrive, h.running, hr, hcons] using h.disabled .recvDown rfl

/-- In a session that stands still with a frame under way each driver waits for the other. -/
theorem jammed (hframe : s.underWay ≠ []) : s.Jammed u := by
  -- a driver that waits backs its own direction up to the other driver
  have hover : s.client.ep.await ≠ .idle → s.agent.ep.await ≠ .idle := fun hc =>
    h.up.waiting (by rcases h.client.queued hc with hq | hq <;> simp [Endpoint.toward, hq])
  have hback : s.agent.ep.await ≠ .idle → s.client.ep.await ≠ .idle := fun ha =>
    h.down.waiting (by rcases h.agent.queued ha with hq | hq <;> simp [Endpoint.toward, hq])
  have hboth : s.client.ep.await ≠ .idle ∧ s.agent.ep.await ≠ .idle := by
    rcases not_and_or.mp (mt List.append_eq_nil_iff.mpr hframe) with hf | hf
    · exact ⟨hback (h.up.waiting hf), h.up.waiting hf⟩
    · exact ⟨h.down.waiting hf, hover (h.down.waiting hf)⟩
  obtain ⟨hcw, hwu, har, haf⟩ := h.up.full hboth.1
  obtain ⟨haw, hwd, hcr, hcf⟩ := h.down.full hboth.2
  exact ⟨⟨hboth.1, h.client.blocked hboth.1, hcw, hcr, hcf⟩,
    ⟨hboth.2, h.agent.blocked hboth.2, haw, har, haf⟩, hwu, hwd⟩

end Still

end Session

/-- Between two running ends that each have a slot of the ordered queue which no permit holds, a
frame under way keeps some task moving unless both directions are full from end to end. -/
theorem frame_keeps_session_moving (u : Setup) {s : Session}
    (h : Reachable (Session.step u) Session.start s)
    (hrun : s.client.ep.ended = none ∧ s.agent.ep.ended = none)
    (hslot : s.client.ep.reserved < u.client.ordered ∧ s.agent.ep.reserved < u.agent.ordered)
    (hfree : ¬ s.Jammed u) (hframe : s.underWay ≠ []) :
    ∃ act : SessionAct, act.ofTask = true ∧ (s.step u act).isSome = true := by
  by_contra hno
  have hstill : s.Still u := ⟨Session.Conforms.reachable h, hrun, hslot, fun act ha =>
    Option.not_isSome_iff_eq_none.mp fun hs => hno ⟨act, ha, hs⟩⟩
  exact hfree (hstill.jammed hframe)

/- The smallest channels, and more streams than they hold frames. -/
def narrowSetup : Setup where
  limits := { oneStream with
    maxStreams := 16, maxStreams_pos := by decide, maxStreams_le := by decide }
  policy := ⟨true, true, true⟩
  client := smallCaps
  agent := smallCaps

def askRun : List SessionAct := [.client (.resolve ['a'] 80), .client .command]

def upRun : List SessionAct :=
  [.client .resume, .client (.pick false), .sendUp, .recvUp, .agent .deliver]

def downRun : List SessionAct :=
  [.agent .resume, .agent (.pick false), .sendDown, .recvDown, .client .deliver]

/- Six resolutions are started. Their answers stop one behind the other on the way down, then six
more requests on the way up. -/
def jammedRun : List SessionAct :=
  (List.replicate 6 (askRun ++ upRun ++ [.agent .frame])).flatten ++
    [5, 4, 3, 2, 1, 0].flatMap (fun n =>
      .agent (.finish 0 (.lookup (.ok [.v4 0x08080808 80]))) :: downRun.take n) ++
    [5, 4, 3, 2, 1, 0].flatMap (fun n => askRun ++ upRun.take n) ++
    [.client (.resolve ['a'] 80)]

/-- Both drivers wait for room in full queues, and only the callers' identifiers and the ends'
timeouts are left. -/
theorem drivers_jam :
    ∃ s, exec (Session.step narrowSetup) Session.start jammedRun = some s ∧
      (s.client.ep.ended = none ∧ s.agent.ep.ended = none) ∧ s.underWay.length = 10 ∧
      ∀ act, (s.step narrowSetup act).isSome = true →
        act = .client .skipId ∨
          ∃ error, act = .client (.fail error) ∨ act = .agent (.fail error) := by
  refine ⟨_, rfl, ⟨rfl, rfl⟩, rfl, fun act h => ?_⟩
  cases act with
  | client a =>
    cases a with
    | skipId => exact .inl rfl
    | fail error => exact .inr ⟨error, .inl rfl⟩
    | resolve | openIp =>
      obtain ⟨t, ht⟩ := Option.isSome_iff_exists.mp h
      obtain ⟨c, hc, -⟩ := Option.map_eq_some_iff.mp ht
      obtain ⟨-, hsend⟩ := Option.ite_none_right_eq_some.mp hc
      cases hsend
    | _ => cases h
  | agent a =>
    cases a with
    | fail error => exact .inr ⟨error, .inr rfl⟩
    | _ => cases h
  | _ => cases h

/- One request fewer on its way. -/
theorem frame_keeps_session_moving_before_jam :
    ∃ s, exec (Session.step narrowSetup) Session.start (jammedRun.take 94) = some s ∧
      ∃ act : SessionAct, act.ofTask = true ∧ (s.step narrowSetup act).isSome = true := by
  obtain ⟨s, hs, hrun, hslot, hidle, hframe⟩ : ∃ s,
      exec (Session.step narrowSetup) Session.start (jammedRun.take 94) = some s ∧
      (s.client.ep.ended = none ∧ s.agent.ep.ended = none) ∧
      (s.client.ep.reserved < 1 ∧ s.agent.ep.reserved < 1) ∧ s.client.ep.await = .idle ∧
      s.underWay.length = 10 := ⟨_, rfl, ⟨rfl, rfl⟩, by decide, rfl, rfl⟩
  exact ⟨s, hs, frame_keeps_session_moving narrowSetup (reachable_exec _ (.start _) hs) hrun hslot
    (fun hjam => hjam.client.await hidle) (List.ne_nil_of_length_eq_add_one hframe)⟩

end Alighieri.Rdp
