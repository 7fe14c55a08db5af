import Alighieri.Rdp.AgentSide

/-!
# What a stream keeps to at its end of the session

`Side.Sound` adds to the invariant of the stream what the driver knows: it waits at a gate only
for a stream whose remote side is over, an open stream has not been told of an end, and a worker's
report says how the worker has ended.
-/

namespace Alighieri.Rdp
open Net

variable {s s' : Stream} {known : Bool} {await : Await} {w : WorkerEvent} {rest : List WorkerEvent}
  {r : ClientHandled} {inp out : List Frame} {caps : Caps} {c : Client} {a : Agent} {f : Frame}

/- How the two ends name their states: the open ones, those for which no stream has
been spawned, and among these the ones that may still become open. -/
class StreamState (σ : Type) where
  opened : σ → Bool
  early : σ → Bool
  setting : σ → Bool
  early_of_setting : ∀ st, setting st = true → early st = true

instance : StreamState ClientStreamState where
  opened
    | .opened _ => true
    | _ => false
  early := ClientStreamState.early
  setting := ClientStreamState.early
  early_of_setting _ h := h

instance : StreamState AgentStreamState where
  opened
    | .opened => true
    | _ => false
  early
    | .resolving | .resolved _ | .opening _ | .cancelled => true
    | _ => false
  setting
    | .resolving | .resolved _ | .opening _ => true
    | _ => false
  early_of_setting := by
    intro st h
    cases st <;> first | rfl | cases h

structure Side.Sound {σ : Type} [StreamState σ] (limits : NegotiatedLimits) (id : ℕ)
    (x : Side σ) : Prop where
  stream : ∀ s, x.stream = some s → s.Sound limits.maxData limits.receiveWindow
  retired : x.ended = false → ∀ s, x.stream = some s → s.Retired
  gate : ∀ i reason, x.await = .closeGate i reason →
    i = id ∧ ∃ s, x.stream = some s ∧ s.remoteClosed = true
  send : ∀ i reason, x.await = .closeSend i reason →
    i = id ∧ ∃ s, x.stream = some s ∧ s.driverGate = true
  driver : ∀ s, x.stream = some s → s.driverGate = true → ∃ reason, x.await = .closeSend id reason
  credit : ∀ i payload, x.await = .creditGate i payload →
    i = id ∧ ∃ st, x.state = some st ∧ StreamState.opened st = true
  events : ∀ w ∈ x.events, ∃ s, x.stream = some s ∧
    ((w = .localCloseQueued id ∧ s.outPc = .done true) ∨
      (w = .stopped id ∧ s.outPc = .done false))
  opened : ∀ st, x.state = some st → StreamState.opened st = true → ∃ s, x.stream = some s ∧
    (x.ended = false → s.remoteClosed = false)
  early : ∀ st, x.state = some st → StreamState.early st = true → x.stream = none
  pending : x.await.next.inserts ≠ none → x.state = none ∧ x.stream = none
  fresh : x.known = false → x.state = none ∧ x.stream = none ∧ x.await = .idle

theorem NegotiatedLimits.window_lt (limits : NegotiatedLimits) : limits.receiveWindow < 2 ^ 32 :=
  Nat.lt_of_le_of_lt limits.receiveWindow_le (by decide)

namespace Side.Sound

variable {σ : Type} [StreamState σ] {limits : NegotiatedLimits} {id : ℕ} {x x' : Side σ}

/- The same for a side with a spawned stream, said of the stream. -/
structure Held {σ : Type} [StreamState σ] (limits : NegotiatedLimits) (id : ℕ) (x : Side σ)
    (s : Stream) : Prop where
  stream : x.stream = some s
  sound : s.Sound limits.maxData limits.receiveWindow
  retired : x.ended = false → s.Retired
  gate : ∀ i reason, x.await = .closeGate i reason → i = id ∧ s.remoteClosed = true
  send : ∀ i reason, x.await = .closeSend i reason → i = id ∧ s.driverGate = true
  driver : s.driverGate = true → ∃ reason, x.await = .closeSend id reason
  credit : ∀ i payload, x.await = .creditGate i payload →
    i = id ∧ ∃ st, x.state = some st ∧ StreamState.opened st = true
  events : ∀ w ∈ x.events, (w = .localCloseQueued id ∧ s.outPc = .done true) ∨
    (w = .stopped id ∧ s.outPc = .done false)
  opened : ∀ st, x.state = some st → StreamState.opened st = true → x.ended = false →
    s.remoteClosed = false
  early : ∀ st, x.state = some st → StreamState.early st = false
  pending : x.await.next.inserts = none
  known : x.known = true

theorem held (hx : x.Sound limits id) (hs : x.stream = some s) : Held limits id x s := by
  have hown : ∀ {P : Stream → Prop}, (∃ t, x.stream = some t ∧ P t) → P s := by
    rintro P ⟨t, ht, hP⟩
    cases hs.symm.trans ht
    exact hP
  have hsome : x.stream ≠ none := by
    rw [hs]
    exact Option.some_ne_none s
  refine ⟨hs, hx.stream s hs, fun hend => hx.retired hend s hs, ?_, ?_, hx.driver s hs, hx.credit,
    fun w hw => hown (hx.events w hw), fun st hst ho => hown (hx.opened st hst ho), ?_, ?_, ?_⟩
  · intro i reason ha
    exact ⟨(hx.gate i reason ha).1, hown (hx.gate i reason ha).2⟩
  · intro i reason ha
    exact ⟨(hx.send i reason ha).1, hown (hx.send i reason ha).2⟩
  · intro st hst
    by_contra he
    exact hsome (hx.early st hst (by simpa using he))
  · by_contra hp
    exact hsome (hx.pending hp).2
  · by_contra hk
    exact hsome (hx.fresh (by simpa using hk)).2.1

theorem Held.side (h : Held limits id x s) : x.Sound limits id := by
  have hown : ∀ {P : Stream → Prop}, P s → ∀ t, x.stream = some t → P t := by
    intro P hP t ht
    cases h.stream.symm.trans ht
    exact hP
  refine ⟨hown h.sound, fun hend => hown (h.retired hend), ?_, ?_, hown h.driver, h.credit,
    fun w hw => ⟨s, h.stream, h.events w hw⟩, fun st hst ho => ⟨s, h.stream, h.opened st hst ho⟩,
    ?_, fun hp => absurd h.pending hp, ?_⟩
  · intro i reason ha
    exact ⟨(h.gate i reason ha).1, s, h.stream, (h.gate i reason ha).2⟩
  · intro i reason ha
    exact ⟨(h.send i reason ha).1, s, h.stream, (h.send i reason ha).2⟩
  · intro st hst he
    rw [h.early st hst] at he
    cases he
  · intro hk
    rw [h.known] at hk
    cases hk

variable (hx : x.Sound limits id)
include hx

theorem setStream (hs : x.stream = some s) (hsound : s'.Sound limits.maxData limits.receiveWindow)
    (hret : x.ended = false → s'.Retired) (hremote : s'.remoteClosed = s.remoteClosed)
    (hdg : s'.driverGate = s.driverGate) (hdone : ∀ q, s.outPc = .done q → s'.outPc = .done q) :
    Side.Sound limits id { x with stream := some s' } := by
  have h := hx.held hs
  refine Held.side ⟨rfl, hsound, hret, ?_, ?_, ?_, h.credit, ?_, ?_, h.early, h.pending, h.known⟩
  · rw [hremote]
    exact h.gate
  · rw [hdg]
    exact h.send
  · rw [hdg]
    exact h.driver
  · intro w hw
    exact (h.events w hw).imp (fun he => ⟨he.1, hdone _ he.2⟩) (fun he => ⟨he.1, hdone _ he.2⟩)
  · rw [hremote]
    exact h.opened

theorem idle (hd : ∀ s, x.stream = some s → s.driverGate = false) :
    Side.Sound limits id { x with await := .idle } := by
  refine ⟨hx.stream, hx.retired, fun _ _ => nofun, fun _ _ => nofun, ?_,
    fun _ _ => nofun, hx.events, hx.opened, hx.early, fun hp => absurd rfl hp, ?_⟩
  · intro s hs hdg
    rw [hd s hs] at hdg
    cases hdg
  · intro hk
    exact ⟨(hx.fresh hk).1, (hx.fresh hk).2.1, rfl⟩

theorem know (hk : x.known = true → known = true) :
    Side.Sound limits id { x with known := known } := by
  refine { hx with fresh := ?_ }
  intro hf
  apply hx.fresh
  by_contra hkn
  rw [hk (by simpa using hkn)] at hf
  cases hf

theorem stop (hk : x.known = true → known = true) :
    Side.Sound limits id { x with known := known, ended := true } := by
  have hknow := hx.know hk
  refine { hx with retired := nofun, opened := ?_, fresh := hknow.fresh }
  intro st hst ho
  obtain ⟨s, hs, -⟩ := hx.opened st hst ho
  exact ⟨s, hs, nofun⟩

theorem pass (known ended : Bool) :
    Side.Sound limits id { x with known := x.known || known, ended := x.ended || ended } := by
  cases ended with
  | true =>
    simp only [Bool.or_true]
    exact hx.stop (fun hk => by simp [hk])
  | false =>
    simp only [Bool.or_false]
    exact hx.know (fun hk => by simp [hk])

theorem known_of_stream (hs : x.stream = some s) : x.known = true :=
  (hx.held hs).known

theorem known_of_state {st : σ} (hst : x.state = some st) :
    x.known = true := by
  by_contra hk
  rw [(hx.fresh (by simpa using hk)).1] at hst
  cases hst

theorem known_of_busy (ha : x.await ≠ .idle) : x.known = true := by
  by_contra hk
  exact ha (hx.fresh (by simpa using hk)).2.2

theorem no_driverGate (ha : ∀ i reason, x.await ≠ .closeSend i reason) (s : Stream)
    (hs : x.stream = some s) : s.driverGate = false := by
  by_contra hd
  obtain ⟨reason, he⟩ := hx.driver s hs (by simpa using hd)
  exact ha _ _ he

theorem free_of_idle (hidle : x.await = .idle) (s : Stream) (hs : x.stream = some s) :
    s.driverGate = false := by
  refine hx.no_driverGate ?_ s hs
  rw [hidle]
  exact fun _ _ => nofun

/- A worker runs only while the endpoint does. -/
theorem retired_of (hs : x.stream = some s) {a : StreamAct}
    (hrun : x.ended = false ∨ a.isWorker = false) (hw : a.isWorker = true) : s.Retired := by
  rcases hrun with hend | hcall
  · exact hx.retired hend s hs
  · rw [hw] at hcall
    cases hcall

theorem act {eff : Effect} {a : StreamAct} (hs : x.stream = some s)
    (hrun : x.ended = false ∨ a.isWorker = false)
    (h : s.step limits.maxData id a = some (s', eff)) :
    Side.Sound limits id { x with stream := some s', events := x.events ++ eff.events } := by
  have hsound := hx.stream s hs
  have hret := hx.retired_of hs hrun
  obtain ⟨new, hmoved⟩ := hsound.step_moved hret h
  have hset := hx.setStream hs
    (hsound.step limits.maxData_pos limits.window_lt hret h)
    (fun hend => (hx.retired hend s hs).step hsound h) hmoved.remote hmoved.driver
    (fun q hq => (Stream.step_done hq h).1)
  refine { hset with events := ?_ }
  intro w hw
  rcases List.mem_append.mp hw with hw | hw
  · exact hset.events w hw
  · exact ⟨s', rfl, Stream.step_reports h hw⟩

theorem move (h : SideMove limits.maxData id x x' out) :
    x'.Sound limits id := by
  cases h with
  | skip => exact hx
  | stop | refused => exact hx.stop (fun hk => hk)
  | act a hs hrun h => exact hx.act hs hrun h
  | sent hrun ha =>
    exact hx.idle (hx.no_driverGate (fun i r he => by rw [ha] at he; cases he))
  | closeFound hrun ha hs hg hq =>
    rename_i s reason
    obtain ⟨hout, -, hdg⟩ := Stream.sendGateFree_iff.mp hg
    have hset := hx.setStream hs (hx.stream s hs).abort (fun _ _ => ⟨hq, hout⟩) rfl rfl
      (fun q hp => hp)
    refine hset.idle ?_
    intro t ht
    cases ht
    exact hdg
  | closeTaken hrun ha hs hg hq =>
    rename_i reason
    have hold := hx.held hs
    refine Held.side ⟨rfl, hold.sound.takeClose hg (hold.gate id reason ha).2, ?_,
      (fun _ _ h => by cases h), ?_, fun _ => ⟨reason, rfl⟩, (fun _ _ h => by cases h), hold.events,
      hold.opened, hold.early, rfl, hold.known⟩
    · intro hend hab
      exact ⟨rfl, (hold.retired hend hab).2⟩
    · intro i r he
      cases he
      exact ⟨rfl, rfl⟩
  | closeSent hrun ha hs =>
    rename_i s reason
    have hold := hx.held hs
    have hdg := (hold.send id reason ha).2
    obtain ⟨-, hq, -⟩ := hold.sound.driver_gate hdg
    have hout : s.outPc.holdsGate = false := by
      by_contra ho
      have := (hold.sound.gates (by simpa using ho)).2
      rw [hdg] at this
      cases this
    exact Held.side ⟨rfl, hold.sound.giveClose, fun _ _ => ⟨hq, hout⟩, (fun _ _ h => by cases h),
      (fun _ _ h => by cases h), (fun h => by cases h), (fun _ _ h => by cases h), hold.events,
      hold.opened, hold.early, rfl, hold.known⟩
  | pushed hrun ha hs hg hp =>
    rename_i s s' payload
    have hsound := (hx.stream s hs).push hp
    obtain ⟨-, -, -, rfl⟩ := Stream.pushInbound_ok hp
    have hset := hx.setStream hs hsound (fun hend => hx.retired hend s hs) rfl rfl (fun q hq => hq)
    exact hset.idle (hset.no_driverGate (fun i r he => by
      have he' : x.await = .closeSend i r := he
      rw [ha] at he'
      cases he'))
  | torn hend hs =>
    have hold := hx.held hs
    have hover : ∀ {P : Prop}, x.ended = false → P := by
      intro P he
      rw [hend] at he
      cases he
    exact Held.side { hold with
      stream := rfl
      sound := (hold.sound.shut _).abort
      retired := fun he => hover he
      gate := fun i r he => ⟨(hold.gate i r he).1, rfl⟩
      opened := fun _ _ _ he => hover he }

theorem setState (hidle : x.await = .idle) (st' : Option σ) (await' : Await) (known' : Bool)
    (hno : ∀ st, st' = some st → StreamState.opened st = false)
    (hearly : ∀ st, st' = some st → StreamState.early st = true → x.stream = none)
    (haw : await' = .idle ∨ ∃ f, await' = .ordered f .done)
    (hk : known' = false → st' = none ∧ x.stream = none ∧ await' = .idle) :
    Side.Sound limits id { x with state := st', await := await', known := known' } := by
  have hopened : ∀ {P : Prop} (st : σ), st' = some st → StreamState.opened st = true → P := by
    intro P st hst ho
    rw [hno st hst] at ho
    cases ho
  have hdriver : ∀ {P : Prop} s, x.stream = some s → s.driverGate = true → P := by
    intro P s hs hd
    rw [hx.free_of_idle hidle s hs] at hd
    cases hd
  rcases haw with rfl | ⟨f, rfl⟩ <;>
    exact ⟨hx.stream, hx.retired, fun _ _ => nofun, fun _ _ => nofun,
      fun s hs hd => hdriver s hs hd, fun _ _ => nofun, hx.events,
      fun st hst ho => hopened st hst ho, hearly, fun hp => absurd rfl hp, hk⟩

theorem drop (hidle : x.await = .idle) {st : σ} (hst : x.state = some st) (await' : Await)
    (haw : await' = .idle ∨ ∃ f, await' = .ordered f .done) :
    Side.Sound limits id ({ x with state := none, await := await' } : Side σ) :=
  hx.setState hidle none await' x.known (fun _ => nofun) (fun _ => nofun) haw
    (fun hk => by rw [hx.known_of_state hst] at hk; cases hk)

theorem shutState (hidle : x.await = .idle) {st : σ} (hst : x.state = some st)
    (ho : StreamState.opened st = true) (st' : Option σ) (reason : CloseReason)
    (failure : Stream → Option StreamFailure)
    (hno : ∀ st, st' = some st → StreamState.opened st = false ∧ StreamState.early st = false) :
    Side.Sound limits id { x with
      state := st'
      stream := x.stream.map fun s => s.shut (failure s)
      await := .closeGate id reason } := by
  obtain ⟨s, hs, -⟩ := hx.opened st hst ho
  have hold := hx.held hs
  simp only [hs, Option.map_some]
  refine Held.side ⟨rfl, hold.sound.shut _, hold.retired, ?_, fun _ _ => nofun, ?_,
    fun _ _ => nofun, hold.events, ?_, fun t ht => (hno t ht).2, rfl, hold.known⟩
  · intro i r he
    cases he
    exact ⟨rfl, rfl⟩
  · intro hd
    have hd' : s.driverGate = true := hd
    rw [hx.free_of_idle hidle s hs] at hd'
    cases hd'
  · intro t ht hopen
    rw [(hno t ht).1] at hopen
    cases hopen

theorem spawn (hs : x.stream = none) (hk : x.known = true) (st : σ)
    (hst : StreamState.opened st = true ∧ StreamState.early st = false) (s : Stream)
    (hsound : s.Sound limits.maxData limits.receiveWindow) (hr : s.remoteClosed = false)
    (hab : s.aborted = false) (hd : s.driverGate = false) :
    Side.Sound limits id { x with state := some st, stream := some s, await := .idle } := by
  refine Held.side ⟨rfl, hsound, ?_, fun _ _ => nofun, fun _ _ => nofun, ?_,
    fun _ _ => nofun, ?_, fun _ _ _ _ => hr, ?_, rfl, hk⟩
  · intro _ h
    rw [hab] at h
    cases h
  · intro h
    rw [hd] at h
    cases h
  · intro w hw
    obtain ⟨t, ht, -⟩ := hx.events w hw
    rw [hs] at ht
    cases ht
  · intro t ht
    cases ht
    exact hst.2

theorem flow (hidle : x.await = .idle) {standing : Standing}
    (htakes : standing = .takes → ∃ st, x.state = some st ∧ StreamState.opened st = true)
    (hf : f.lane = some id) {stream : Option Stream}
    (h : FlowCase limits standing x.stream f stream await) :
    Side.Sound limits id { x with stream := stream, await := await } := by
  have hkeep : Side.Sound limits id { x with await := .idle } := hx.idle (hx.free_of_idle hidle)
  cases h with
  | ignored h => exact hkeep
  | missing h hs =>
    obtain ⟨st, hst, ho⟩ := htakes h
    obtain ⟨s, hsome, -⟩ := hx.opened st hst ho
    rw [hs] at hsome
    cases hsome
  | data h hle =>
    rename_i i payload
    cases hf
    obtain ⟨st, hst, ho⟩ := htakes h
    obtain ⟨s, hs, -⟩ := hx.opened st hst ho
    have hold := hkeep.held hs
    refine Held.side ⟨hs, hold.sound, hold.retired, fun _ _ => nofun,
      fun _ _ => nofun, ?_, ?_, hold.events, hold.opened, hold.early, rfl, hold.known⟩
    · intro hd
      rw [hx.free_of_idle hidle s hs] at hd
      cases hd
    · intro i p he
      cases he
      exact ⟨rfl, st, hst, ho⟩
  | shutdown h hs hfin =>
    rename_i s s'
    have hsound := (hx.stream s hs).finish hfin
    obtain ⟨-, rfl⟩ := Stream.finishInbound_ok hfin
    exact hkeep.setStream hs hsound (fun hend => hx.retired hend s hs) rfl rfl (fun q hq => hq)
  | credit h hs hc =>
    rename_i s s'
    have hsound := (hx.stream s hs).addCredit hc
    have he := Stream.addCredit_ok hc
    subst he
    exact hkeep.setStream hs hsound (fun hend => hx.retired hend s hs) rfl rfl (fun q hq => hq)

theorem report (hrun : x.ended = false) (hidle : x.await = .idle) (hw : x.events = w :: rest)
    {st : σ} (hst : x.state = some st) (ho : StreamState.opened st = true) (st' : Option σ)
    (hno : ∀ st, st' = some st → StreamState.opened st = false ∧ StreamState.early st = false) :
    (w = .localCloseQueued id ∧ ∃ s, x.stream = some s ∧ s.Over) ∧
    Side.Sound limits id { x with
      state := st'
      stream := x.stream.map ({ · with aborted := true })
      events := rest } := by
  obtain ⟨s, hs, -⟩ := hx.opened st hst ho
  have hold := hx.held hs
  have hpc := hold.sound.pc
  -- a worker that stopped without a CLOSE has seen the end of the remote side
  rcases hold.events w (by rw [hw]; exact List.mem_cons_self) with ⟨hev, hdone⟩ | ⟨hev, hdone⟩
  · have hq : s.closeQueued = true := by simpa [Stream.PcSound, hdone] using hpc
    have hover : s.Over := ⟨hq, by simp [hdone]⟩
    refine ⟨⟨hev, s, hs, hover⟩, ?_⟩
    simp only [hs, Option.map_some]
    refine Held.side ⟨rfl, hold.sound.abort, fun _ _ => hover, hold.gate, hold.send, hold.driver, ?_, ?_,
      ?_, fun t ht => (hno t ht).2, hold.pending, hold.known⟩
    · rw [hidle]
      exact fun _ _ h => by cases h
    · intro v hv
      exact hold.events v (by rw [hw]; exact List.mem_cons_of_mem _ hv)
    · intro t ht hopen
      rw [(hno t ht).1] at hopen
      cases hopen
  · have hr : s.remoteClosed = true := by simpa [Stream.PcSound, hdone] using hpc
    rw [hold.opened st hst ho hrun] at hr
    cases hr

theorem dropEvent (hw : x.events = w :: rest) :
    Side.Sound limits id { x with events := rest } := by
  refine { hx with events := ?_ }
  intro v hv
  exact hx.events v (by rw [hw]; exact List.mem_cons_of_mem _ hv)

end Side.Sound

/- The two ends start sound and keep so. -/

/- A report is about a stream that is not open, or its driver retires the stream. -/
inductive EventCase {σ : Type} [StreamState σ] (w : WorkerEvent) (e : Entry σ) : Entry σ → Prop where
  | ignored : EventCase w e e
  | retired {st : σ} {st' : Option σ} (hst : e.state = some st) (ho : StreamState.opened st = true)
      (hno : ∀ t, st' = some t → StreamState.opened t = false ∧ StreamState.early t = false)
      (hkept : ∀ i, w = .localCloseQueued i → st' ≠ none) :
      EventCase w e ⟨st', e.stream.map ({ · with aborted := true })⟩

theorem Side.Sound.event {σ : Type} [StreamState σ] {limits : NegotiatedLimits} {id : ℕ}
    {x : Side σ} (hx : x.Sound limits id) (hrun : x.ended = false) (hidle : x.await = .idle)
    (hw : x.events = w :: rest) {y : Entry σ} (h : EventCase w ⟨x.state, x.stream⟩ y) :
    Side.Sound limits id { x with state := y.state, stream := y.stream, events := rest } := by
  cases h with
  | ignored => exact hx.dropEvent hw
  | retired hst ho hno => exact (hx.report hrun hidle hw hst ho _ hno).2

theorem Side.Sound.empty {σ : Type} [StreamState σ] (limits : NegotiatedLimits) (id : ℕ)
    (known : Bool) : Side.Sound limits id
      ({ state := none, stream := none, await := .idle, events := [], known := known,
         ended := false } : Side σ) := by
  constructor <;> simp [Await.next, Next.inserts]

theorem ClientStreamState.takes_opened {state : Option ClientStreamState}
    (h : ClientStreamState.standing state = .takes) :
    ∃ st, state = some st ∧ StreamState.opened st = true := by
  cases state with
  | none => cases h
  | some st =>
    cases st with
    | opened => exact ⟨_, rfl, rfl⟩
    | _ => cases h

theorem AgentStreamState.takes_opened {state : Option AgentStreamState}
    (h : AgentStreamState.standing state = .takes) :
    ∃ st, state = some st ∧ StreamState.opened st = true := by
  cases state with
  | none => cases h
  | some st =>
    cases st with
    | opened => exact ⟨_, rfl, rfl⟩
    | _ => cases h

section Client

variable {limits : NegotiatedLimits} {id : ℕ} {x : Side ClientStreamState}

theorem Side.Sound.command (hx : x.Sound limits id) (hidle : x.await = .idle)
    {cmd : ClientCommand} (hid : Client.commandId cmd = id)
    (hnew : Client.creates cmd = true → x.known = false ∧ id % 2 = 1)
    {full : Bool} (h : CommandCase full ⟨x.state, x.stream⟩ r cmd) :
    Side.Sound limits id { x with
      state := r.entry.state
      stream := r.entry.stream
      await := r.await
      known := x.known || Client.creates cmd } := by
  cases h with
  | keep =>
    have hkeep : Side.Sound limits id { x with known := x.known || Client.creates cmd } :=
      hx.know (fun hk => by simp [hk])
    exact hidle ▸ hkeep
  | resolve hx' | openIp hx' =>
    obtain ⟨hk, -⟩ := hnew rfl
    exact hx.setState hidle _ _ _ (by simp [StreamState.opened])
      (fun _ _ _ => (hx.fresh hk).2.1) (.inr ⟨_, rfl⟩) (by simp [Client.creates])
  | openTo hx' hmem =>
    have hkn := hx.known_of_state hx'
    exact hx.setState hidle _ _ _ (by simp [StreamState.opened]) (fun _ _ _ => hx.early _ hx' rfl)
      (.inr ⟨_, rfl⟩) (by simp [hkn])
  | closeOpened hx' =>
    rename_i permit
    cases hid
    have hshut := hx.shutState hidle hx' rfl (some (.closing permit)) .cancelled
      (fun _ => some (.session cancelled)) (by simp [StreamState.opened, StreamState.early,
        ClientStreamState.early])
    exact hshut.know (fun hk => by simp only at hk; simp [hk])
  | closeEarly permit hx' hst =>
    have hkn := hx.known_of_state hx'
    exact hx.setState hidle _ _ _ (by simp [StreamState.opened])
      (by simp [StreamState.early, ClientStreamState.early]) (.inr ⟨_, rfl⟩) (by simp [hkn])

theorem Side.Sound.clientFrame {alive : Bool} (hx : x.Sound limits id) (hidle : x.await = .idle)
    (hf : f.lane = some id) (h : ClientFrameCase limits alive ⟨x.state, x.stream⟩ r f) :
    Side.Sound limits id { x with
      state := r.entry.state, stream := r.entry.stream, await := r.await } := by
  cases h with
  | flow hc =>
    exact hx.flow hidle ClientStreamState.takes_opened hf hc
  | late hx' hf =>
    exact hx.idle (hx.free_of_idle hidle)
  | resolved hx' hne =>
    exact hx.setState hidle _ _ x.known (by simp [StreamState.opened])
      (fun _ _ _ => hx.early _ hx' rfl) (.inl rfl) (fun hk => by simp [hx.known_of_state hx'] at hk)
  | emptied hx' he | resolveFailed hx' | closeLast hx' =>
    exact hx.drop hidle hx' _ (.inl rfl)
  | abandoned hx' hne =>
    exact hx.setState hidle _ _ x.known (by simp [StreamState.opened])
      (by simp [StreamState.early, ClientStreamState.early]) (.inr ⟨_, rfl⟩)
      (fun hk => by simp [hx.known_of_state hx'] at hk)
  | opened hx' =>
    have hnone := hx.early _ hx' rfl
    have hnew := Stream.sound_new limits.maxData limits.receiveWindow
    cases alive with
    | true => exact hx.spawn hnone (hx.known_of_state hx') _ ⟨rfl, rfl⟩ _ hnew rfl rfl rfl
    | false => exact hx.spawn hnone (hx.known_of_state hx') _ ⟨rfl, rfl⟩ _ hnew.dropLocal rfl rfl rfl
  | openFailed hx' =>
    refine hx.setState hidle _ _ x.known ?_ (fun _ _ _ => hx.early _ hx' rfl) (.inl rfl)
      (fun hk => by simp [hx.known_of_state hx'] at hk)
    intro st hst
    obtain ⟨c, -, rfl⟩ := Option.map_eq_some_iff.mp hst
    rfl
  | closeOpened hx' =>
    rename_i reason permit
    cases hf
    exact hx.shutState hidle hx' rfl none .normal
      (fun s => if reason ≠ .normal then some (.remoteClosed reason) else s.failure) (by simp)
  | closeEarly hx' hst =>
    exact hx.drop hidle hx' _ (.inr ⟨_, rfl⟩)

theorem clientWorkerEvent_case (x : Entry ClientStreamState) (w : WorkerEvent) :
    EventCase w x (clientWorkerEvent x w) := by
  obtain ⟨state, stream⟩ := x
  cases w with
  | localCloseQueued i =>
    simp only [clientWorkerEvent]
    split
    · refine .retired rfl rfl ?_ (by simp)
      rintro st ⟨⟩
      exact ⟨rfl, rfl⟩
    · exact .ignored
  | stopped i =>
    simp only [clientWorkerEvent]
    split
    · exact .retired rfl rfl (by simp) (by simp)
    · exact .ignored

theorem Side.Sound.clientMove (hx : x.Sound limits id) {x' : Side ClientStreamState}
    (h : ClientMove limits id x x' inp out) : x'.Sound limits id := by
  cases h with
  | side h => exact hx.move h
  | pass known ended => exact hx.pass known ended
  | command hid hrun hidle hnew h => exact hx.command hidle hid hnew (handleClientCommand_case h)
  | commandError => exact hx.stop (fun hk => by simp [hk])
  | frame hf hrun hidle h => exact hx.clientFrame hidle hf (handleClientFrame_case h)
  | frameError => exact hx.stop (fun hk => hk)
  | event hrun hidle hw => exact hx.event hrun hidle hw (clientWorkerEvent_case _ _)

end Client

section Agent

variable {limits : NegotiatedLimits} {policy : AgentPolicy} {id : ℕ} {x : Side AgentStreamState}

theorem Side.Sound.agentFrame (hx : x.Sound limits id) (hidle : x.await = .idle) {v : AgentView}
    (hv : v.limits = limits) (hk : x.known = id.ble v.highest) (hf : f.lane = some id)
    {r : AgentHandled} (h : AgentFrameCase v ⟨x.state, x.stream⟩ r f) :
    Side.Sound limits id { x with
      state := r.entry.state
      stream := r.entry.stream
      await := r.await
      known := id.ble r.highest } := by
  have hnone : ∀ {i}, v.highest < i → i = id → x.stream = none := by
    intro i hi he
    refine (hx.fresh ?_).2.1
    rw [hk, ← Bool.not_eq_true, Nat.ble_eq]
    omega
  cases h with
  | flow hc =>
    rw [← hk]
    exact hx.flow hidle AgentStreamState.takes_opened hf (hv ▸ hc)
  | refusedNew code diagnostic hf' hx' hnew =>
    rename_i i
    have hi : i = id := by
      rcases hf' with ⟨port, hostname, rfl⟩ | ⟨address, rfl⟩ <;> exact Option.some.inj hf
    rw [hi]
    exact hx.setState hidle _ _ _ (by simp) (by simp) (.inr ⟨_, rfl⟩) (by simp)
  | resolve hx' hnew | connectNew hx' hnew =>
    cases hf
    exact hx.setState hidle _ _ _ (by simp [StreamState.opened]) (fun _ _ _ => hnone hnew rfl)
      (.inl rfl) (by simp [Frame.streamId])
  | refused code diagnostic hx' =>
    rw [← hk]
    exact hx.setState hidle _ _ _ (fun st hst => by rw [hx'] at hst; cases hst; rfl)
      (fun _ hst he => hx.early _ hst he) (.inr ⟨_, rfl⟩)
      (fun hkn => by simp [hx.known_of_state hx'] at hkn)
  | connect hx' =>
    rw [← hk]
    exact hx.setState hidle _ _ _ (by simp [StreamState.opened]) (fun _ _ _ => hx.early _ hx' rfl)
      (.inl rfl) (fun hkn => by simp [hx.known_of_state hx'] at hkn)
  | closeStale hx' hold =>
    cases hf
    exact hx.setState hidle _ _ _ (by simp) (by simp) (.inr ⟨_, rfl⟩)
      (fun hkn => by
        rw [← Bool.not_eq_true, Nat.ble_eq] at hkn
        exact absurd hold hkn)
  | closeLast hx' =>
    rw [← hk]
    exact hx.drop hidle hx' _ (.inl rfl)
  | closeOpened hx' =>
    rename_i reason
    cases hf
    rw [← hk]
    exact hx.shutState hidle hx' rfl none .normal
      (fun s => if reason ≠ .normal then some (.remoteClosed reason) else s.failure) (by simp)
  | cancel hx' =>
    have hkn : x.known = true ∧ x.stream = none := by
      rcases hx' with h' | ⟨candidates, h'⟩ <;> exact ⟨hx.known_of_state h', hx.early _ h' rfl⟩
    rw [← hk]
    exact hx.setState hidle _ _ _ (by simp [StreamState.opened]) (fun _ _ _ => hkn.2)
      (.inr ⟨_, rfl⟩) (by simp [hkn.1])
  | closeResolved hx' =>
    rw [← hk]
    exact hx.drop hidle hx' _ (.inr ⟨_, rfl⟩)
  | closeCancelled hx' =>
    rw [← hk]
    exact hx.idle (hx.free_of_idle hidle)

theorem agentWorkerEvent_case (x : Entry AgentStreamState) (w : WorkerEvent) :
    EventCase w x (agentWorkerEvent x w) := by
  cases w with
  | localCloseQueued i =>
    simp only [agentWorkerEvent]
    split
    · rename_i hst
      refine .retired hst rfl ?_ (by simp)
      rintro st ⟨⟩
      exact ⟨rfl, rfl⟩
    · exact .ignored
  | stopped i =>
    simp only [agentWorkerEvent]
    split
    · rename_i hst
      exact .retired hst rfl (by simp) (by simp)
    · exact .ignored

theorem Side.Sound.awaitReply (hx : x.Sound limits id) (hidle : x.await = .idle) (hk : x.known = true)
    (hs : x.stream = none) (f : Frame) (next : Next) :
    Side.Sound limits id
      ({ x with state := none, await := .ordered f next } : Side AgentStreamState) := by
  refine ⟨hx.stream, hx.retired, fun _ _ => nofun, fun _ _ => nofun, ?_, fun _ _ => nofun, hx.events,
    fun _ => nofun, fun _ => nofun, fun _ => ⟨rfl, hs⟩, ?_⟩
  · intro s hs' hd
    rw [hx.free_of_idle hidle s hs'] at hd
    cases hd
  · intro hkn
    have hkn' : x.known = false := hkn
    rw [hk] at hkn'
    cases hkn'

theorem Side.Sound.agentFinish (hx : x.Sound limits id) (hidle : x.await = .idle)
    {done : AgentOperation} {y : Entry AgentStreamState}
    (h : FinishCase ⟨x.state, x.stream⟩ y await done) :
    Side.Sound limits id { x with state := y.state, stream := y.stream, await := await } := by
  cases h with
  | gone hx' =>
    refine hx.setState hidle _ _ x.known (by simp) (by simp) (.inl rfl) ?_
    intro hk
    exact ⟨rfl, (hx.fresh hk).2.1, rfl⟩
  | resolved hx' hne | opened bound hx' =>
    exact hx.awaitReply hidle (hx.known_of_state hx') (hx.early _ hx' rfl) _ _
  | unresolved code diagnostic hx' =>
    exact hx.drop hidle hx' _ (.inr ⟨_, rfl⟩)
  | unopened code diagnostic hx' =>
    refine hx.setState hidle _ _ x.known ?_ (fun _ _ _ => hx.early _ hx' rfl) (.inr ⟨_, rfl⟩)
      (fun hk => by simp [hx.known_of_state hx'] at hk)
    intro st hst
    obtain ⟨c, -, rfl⟩ := Option.map_eq_some_iff.mp hst
    rfl

theorem Side.Sound.agentMove (hx : x.Sound limits id) {x' : Side AgentStreamState}
    {ops ops' : List Operation} (h : AgentMove limits policy id x ops x' ops' inp out) :
    x'.Sound limits id := by
  cases h with
  | side h => exact hx.move h
  | pass known ended => exact hx.pass known ended
  | frame hv hk hf hrun hidle h => exact hx.agentFrame hidle hv hk hf (handleAgentFrame_case h)
  | frameError hv hk | finishError =>
    exact hx.stop (fun hk => hk)
  | event hrun hidle hw => exact hx.event hrun hidle hw (agentWorkerEvent_case _ _)
  | finish hop hid hrun hidle hd h => exact hx.agentFinish hidle (finishAgentOperation_case h)
  | resolved hrun ha =>
    have hp : x.await.next.inserts ≠ none := by simp [ha, Await.next, Next.inserts]
    have hk := hx.known_of_busy (by simp [ha])
    have hidle := hx.idle (hx.no_driverGate (fun i r he => by rw [ha] at he; cases he))
    exact hidle.setState rfl _ _ x.known (by simp [StreamState.opened])
      (fun _ _ _ => (hx.pending hp).2) (.inl rfl) (by simp [hk])
  | opened hrun ha =>
    have hp : x.await.next.inserts ≠ none := by simp [ha, Await.next, Next.inserts]
    have hk := hx.known_of_busy (by simp [ha])
    exact hx.spawn (hx.pending hp).2 hk .opened ⟨rfl, rfl⟩ _ (Stream.sound_new _ _) rfl rfl rfl

end Agent

/- The ends as a whole. -/

structure Client.Sound (limits : NegotiatedLimits) (c : Client) : Prop where
  orderly : c.Orderly
  sides : ∀ id, (c.side id).Sound limits id

structure Agent.Sound (limits : NegotiatedLimits) (a : Agent) : Prop where
  orderly : a.Orderly
  sides : ∀ id, (a.side id).Sound limits id

theorem Client.Sound.start (limits : NegotiatedLimits) : Client.start.Sound limits :=
  ⟨.start, fun id => .empty limits id _⟩

theorem Agent.Sound.start (limits : NegotiatedLimits) : Agent.start.Sound limits :=
  ⟨.start, fun id => .empty limits id _⟩

theorem Client.Sound.step {limits : NegotiatedLimits} {c' : Client} {act : ClientAct}
    (hc : c.Sound limits) (h : c.step limits caps act = some c') : c'.Sound limits := by
  refine ⟨hc.orderly.step h, fun id => ?_⟩
  obtain ⟨inp, out, hmove, -⟩ := Client.step_side hc.orderly h id
  exact (hc.sides id).clientMove hmove

theorem Agent.Sound.step {limits : NegotiatedLimits} {policy : AgentPolicy} {a' : Agent}
    {act : AgentAct} (ha : a.Sound limits) (h : a.step limits policy caps act = some a') :
    a'.Sound limits := by
  refine ⟨ha.orderly.step h, fun id => ?_⟩
  obtain ⟨inp, out, hmove, -⟩ := Agent.step_side ha.orderly h id
  exact (ha.sides id).agentMove hmove

theorem Client.Sound.wire {limits : NegotiatedLimits} (hc : c.Sound limits)
    (reader writer : Option Frame) :
    Client.Sound limits { c with ep := { c.ep with reader := reader, writer := writer } } :=
  ⟨hc.orderly.wire reader writer, hc.sides⟩

theorem Agent.Sound.wire {limits : NegotiatedLimits} (ha : a.Sound limits)
    (reader writer : Option Frame) :
    Agent.Sound limits { a with ep := { a.ep with reader := reader, writer := writer } } :=
  ⟨⟨{ ha.orderly.tidy with }, ha.orderly.await⟩,
    ha.sides⟩

end Alighieri.Rdp
