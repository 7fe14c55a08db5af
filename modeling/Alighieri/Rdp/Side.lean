import Alighieri.Rdp.StreamMoves

/-!
# One stream at one end

The part of an endpoint that concerns one stream identifier, and what each step of the endpoint
does to it. A step that is about another stream leaves the side and its frames alone.
-/

namespace Alighieri.Rdp
open Net List

variable {f : Frame} {id i maxData : ℕ} {fs : List Frame} {s : Stream} {known : Bool} {a : Await}

/- The stream a frame belongs to; keepalive frames belong to none. -/
def Frame.lane : Frame → Option ℕ
  | .ping _ | .pong _ => none
  | f => some f.streamId

theorem Frame.lane_streamId (hping : ∀ n, f ≠ .ping n) (hpong : ∀ n, f ≠ .pong n) :
    f.lane = some f.streamId := by
  cases f with
  | ping n => exact absurd rfl (hping n)
  | pong n => exact absurd rfl (hpong n)
  | _ => rfl

def onLane (id : ℕ) (fs : List Frame) : List Frame := fs.filter fun f => decide (f.lane = some id)

@[simp] theorem onLane_nil (id : ℕ) : onLane id [] = [] := rfl

@[simp] theorem onLane_append (id : ℕ) (fs gs : List Frame) :
    onLane id (fs ++ gs) = onLane id fs ++ onLane id gs := filter_append _ _

theorem onLane_cons_self (h : f.lane = some id) (fs : List Frame) :
    onLane id (f :: fs) = f :: onLane id fs := by
  simp [onLane, h]

theorem onLane_cons_other (h : f.lane ≠ some id) (fs : List Frame) :
    onLane id (f :: fs) = onLane id fs := by
  simp [onLane, h]

theorem onLane_all (h : ∀ f ∈ fs, f.lane = some id) : onLane id fs = fs := by
  simpa [onLane] using h

theorem onLane_other (h : f.lane = some i) (hi : id ≠ i) : onLane id [f] = [] := by
  simpa [onLane, h] using Ne.symm hi

theorem onLane_none (h : ∀ f ∈ fs, f.lane ≠ some id) : onLane id fs = [] := by
  simpa [onLane] using h

/- What of a suspended handler concerns the stream `id`. -/
def Await.on (id : ℕ) : Await → Await
  | .ordered f next => if f.lane = some id then .ordered f next else .idle
  | .closeGate i reason => if i = id then .closeGate i reason else .idle
  | .closeSend i reason => if i = id then .closeSend i reason else .idle
  | .creditGate i payload => if i = id then .creditGate i payload else .idle
  | .idle | .control _ _ => .idle

@[simp] theorem Await.on_idle (id : ℕ) : Await.idle.on id = .idle := rfl

def Await.hand : Await → List Frame
  | .ordered f _ => [f]
  | .closeSend id reason => [.close id reason]
  | _ => []

def Await.About (id : ℕ) (a : Await) : Prop := a.on id = a ∧ ∀ i, i ≠ id → a.on i = .idle

theorem Await.about_idle (id : ℕ) : Await.About id .idle := ⟨rfl, fun _ _ => rfl⟩

theorem Await.about_ordered (next : Next) (h : f.lane = some id) :
    Await.About id (.ordered f next) := by
  refine ⟨if_pos h, fun i hi => if_neg ?_⟩
  rw [h]
  exact fun he => hi (Option.some.inj he).symm

def Await.Plain (id : ℕ) (a : Await) : Prop := a.About id ∧ a.next = .done

theorem Await.plain_idle (id : ℕ) : Await.Plain id .idle := ⟨about_idle id, rfl⟩

theorem Await.plain_ordered (h : f.lane = some id) :
    Await.Plain id (.ordered f .done) := ⟨about_ordered .done h, rfl⟩

theorem Await.plain_closeGate (id : ℕ) (reason : CloseReason) :
    Await.Plain id (.closeGate id reason) :=
  ⟨⟨if_pos rfl, fun _ hi => if_neg (Ne.symm hi)⟩, rfl⟩

theorem Await.plain_creditGate (id : ℕ) (payload : Bytes) :
    Await.Plain id (.creditGate id payload) :=
  ⟨⟨if_pos rfl, fun _ hi => if_neg (Ne.symm hi)⟩, rfl⟩

/- `known` says that the identifier has been used or passed over. -/
structure Side (σ : Type) where
  state : Option σ
  stream : Option Stream
  await : Await
  events : List WorkerEvent
  known : Bool
  ended : Bool

namespace Endpoint

variable {σ : Type}

def side (e : Endpoint σ) (known : Bool) (id : ℕ) : Side σ where
  state := e.streams.lookup id
  stream := e.live.lookup id
  await := e.await.on id
  events := e.events.filter fun w => decide (w.id = id)
  known := known
  ended := e.ended.isSome

def incoming (e : Endpoint σ) (id : ℕ) : List Frame := onLane id (e.frames ++ e.reader.toList)

def outgoing (e : Endpoint σ) (id : ℕ) : List Frame := onLane id (e.writer.toList ++ e.ordered)

/- A step handles the frames `inp` of a stream and queues the frames `out`. -/
structure Flows (id : ℕ) (e e' : Endpoint σ) (inp out : List Frame) : Prop where
  incoming : e.incoming id = inp ++ e'.incoming id
  outgoing : e'.outgoing id = e.outgoing id ++ out
  logged : onLane id e'.log = onLane id e.log ++ out

theorem Flows.same {e e' : Endpoint σ} (hf : e'.frames = e.frames) (hr : e'.reader = e.reader)
    (hw : e'.writer = e.writer) (ho : e'.ordered = e.ordered) (hl : e'.log = e.log) :
    Flows id e e' [] [] := by
  constructor
  · simp only [Endpoint.incoming, hf, hr, nil_append]
  · simp only [Endpoint.outgoing, hw, ho, append_nil]
  · simp only [hl, append_nil]

theorem Flows.queued {e e' : Endpoint σ} (fs : List Frame) (hf : e'.frames = e.frames)
    (hr : e'.reader = e.reader) (hw : e'.writer = e.writer) (ho : e'.ordered = e.ordered ++ fs)
    (hl : e'.log = e.log ++ fs) : Flows id e e' [] (onLane id fs) := by
  constructor
  · simp only [Endpoint.incoming, hf, hr, nil_append]
  · simp only [Endpoint.outgoing, hw, ho, onLane_append, append_assoc]
  · simp only [hl, onLane_append]

theorem Flows.handled {e e' : Endpoint σ} (f : Frame) (hf : e.frames = f :: e'.frames)
    (hr : e'.reader = e.reader) (hw : e'.writer = e.writer) (ho : e'.ordered = e.ordered)
    (hl : e'.log = e.log) : Flows id e e' (onLane id [f]) [] := by
  constructor
  · simp only [Endpoint.incoming, hf, hr, ← onLane_append, cons_append,
      nil_append]
  · simp only [Endpoint.outgoing, hw, ho, append_nil]
  · simp only [hl, append_nil]

end Endpoint

inductive SideMove {σ : Type} (maxData id : ℕ) (x : Side σ) : Side σ → List Frame → Prop where
  | skip : SideMove maxData id x x []
  | stop : SideMove maxData id x { x with ended := true } []
  | act {s s' : Stream} {eff : Effect} (a : StreamAct) (hs : x.stream = some s)
      (hrun : x.ended = false ∨ a.isWorker = false) (h : s.step maxData id a = some (s', eff)) :
      SideMove maxData id x
        { x with stream := some s', events := x.events ++ eff.events } eff.frames
  | sent {f : Frame} {next : Next} (hrun : x.ended = false) (ha : x.await = .ordered f next)
      (hf : f.lane = some id) (hn : next = .done ∨ ∃ nonce, next = .ping nonce) :
      SideMove maxData id x { x with await := .idle } [f]
  | closeFound {s : Stream} {reason : CloseReason} (hrun : x.ended = false)
      (ha : x.await = .closeGate id reason) (hs : x.stream = some s)
      (hg : s.sendGateFree = true) (hq : s.closeQueued = true) :
      SideMove maxData id x
        { x with stream := some { s with aborted := true }, await := .idle } []
  | closeTaken {s : Stream} {reason : CloseReason} (hrun : x.ended = false)
      (ha : x.await = .closeGate id reason) (hs : x.stream = some s)
      (hg : s.sendGateFree = true) (hq : s.closeQueued = false) :
      SideMove maxData id x
        { x with
          stream := some { s with closeQueued := true, driverGate := true }
          await := .closeSend id reason } []
  | closeSent {s : Stream} {reason : CloseReason} (hrun : x.ended = false)
      (ha : x.await = .closeSend id reason) (hs : x.stream = some s) :
      SideMove maxData id x
        { x with
          stream := some { s with driverGate := false, aborted := true }
          await := .idle } [.close id reason]
  | pushed {s s' : Stream} {payload : Bytes} (hrun : x.ended = false)
      (ha : x.await = .creditGate id payload) (hs : x.stream = some s)
      (hg : s.receiveGateFree = true) (hp : s.pushInbound payload = .ok s') :
      SideMove maxData id x { x with stream := some s', await := .idle } []
  | refused {s : Stream} {payload : Bytes} {error : MuxError} (hrun : x.ended = false)
      (ha : x.await = .creditGate id payload) (hs : x.stream = some s)
      (hg : s.receiveGateFree = true) (hp : s.pushInbound payload = .error error) :
      SideMove maxData id x { x with ended := true } []
  | torn {s : Stream} {error : MuxError} (hend : x.ended = true) (hs : x.stream = some s) :
      SideMove maxData id x
        { x with stream := some { s.sessionFailure error with aborted := true } } []

theorem SideMove.of_eq {σ : Type} {x x' : Side σ} (h : x' = x) : SideMove maxData id x x' [] := by
  rw [h]
  exact .skip

theorem Stream.step_lane {s' : Stream} {act : StreamAct} {eff : Effect}
    (h : s.step maxData id act = some (s', eff)) :
    (∀ f ∈ eff.frames, f.lane = some id) ∧ ∀ w ∈ eff.events, w.id = id := by
  refine ⟨fun f hf => ?_, fun w hw => ?_⟩
  · rcases Stream.step_frames h hf with ⟨_, -, rfl⟩ | rfl | ⟨_, rfl⟩ | ⟨_, -, rfl⟩ <;> rfl
  · rcases Stream.step_reports h hw with ⟨rfl, -⟩ | ⟨rfl, -⟩ <;> rfl

namespace Endpoint

variable {σ : Type} {e e' : Endpoint σ} {limits : NegotiatedLimits} {caps : Caps}

theorem side_congr (hs : e'.streams.lookup id = e.streams.lookup id)
    (hl : e'.live.lookup id = e.live.lookup id) (ha : e'.await.on id = e.await.on id)
    (hev : e'.events = e.events) (hend : e'.ended = e.ended) :
    e'.side known id = e.side known id := by
  simp only [side, hs, hl, ha, hev, hend]

theorem side_setStream (known : Bool) (i : ℕ) (s : Stream) (a : Await) :
    ({ e.setStream i s with await := a } : Endpoint σ).side known i =
      { e.side known i with stream := some s, await := a.on i } := by
  simp [side, setStream]

theorem side_setStream_ne (hi : i ≠ id) (ha : a.on id = e.await.on id) :
    ({ e.setStream i s with await := a } : Endpoint σ).side known id = e.side known id :=
  side_congr rfl (Table.lookup_set_of_ne (Ne.symm hi)) ha rfl rfl

theorem side_await (ha : e.await = a) (hon : a.on id = a) : (e.side known id).await = a := by
  show e.await.on id = a
  rw [ha, hon]

theorem side_ready (h : e.ready = true) (known : Bool) (id : ℕ) :
    (e.side known id).ended = false ∧ (e.side known id).await = .idle := by
  obtain ⟨hend, hidle⟩ := ready_iff.mp h
  simp [side, hend, hidle]

theorem streamStep_side {a : StreamAct} (h : e.streamStep limits caps i a = some e')
    (known : Bool) (id : ℕ) :
    ∃ out, SideMove limits.maxData id (e.side known id) (e'.side known id) out ∧
      Flows id e e' [] out := by
  obtain ⟨s, s', eff, r, hrun, hs, hstep, rfl⟩ := streamStep_cases h
  obtain ⟨hframes, hevents⟩ := Stream.step_lane hstep
  refine ⟨onLane id eff.frames, ?_, .queued eff.frames rfl rfl rfl rfl rfl⟩
  by_cases hi : i = id
  · subst hi
    rw [onLane_all hframes]
    have hown : eff.events.filter (fun w => decide (w.id = i)) = eff.events := by
      simpa using hevents
    have hrun' : (e.side known i).ended = false ∨ a.isWorker = false := by
      rcases hrun with hend | hw
      · exact .inl (by simp [side, hend])
      · exact .inr hw
    have hmove : SideMove limits.maxData i (e.side known i) _ eff.frames :=
      .act a hs hrun' hstep
    simpa [side, filter_append, hown] using hmove
  · have hother : eff.events.filter (fun w => decide (w.id = id)) = [] := by
      simp only [filter_eq_nil_iff, decide_eq_true_eq]
      intro w hw he
      exact hi ((hevents w hw).symm.trans he)
    have hout : onLane id eff.frames = [] := by
      apply onLane_none
      intro f hf he
      rw [hframes f hf] at he
      cases he
      exact hi rfl
    rw [hout]
    have hside : ({ e with
        live := e.live.set i (some s')
        ordered := e.ordered ++ eff.frames
        log := e.log ++ eff.frames
        events := e.events ++ eff.events
        reserved := r } : Endpoint σ).side known id = e.side known id := by
      simp only [side, filter_append, hother, append_nil,
        Table.lookup_set_of_ne (Ne.symm hi)]
    exact .of_eq hside

theorem pick_flows {raced : Bool} (ht : ∀ f ∈ e.control, f.lane = none)
    (h : e.pick raced = some e') (id : ℕ) :
    Flows id e e' [] [] := by
  obtain ⟨-, hw, ⟨f, cs, hc, rfl⟩ | ⟨f, os, ho, rfl⟩⟩ := pick_cases h
  · have hf : f.lane ≠ some id := by
      rw [ht f (by rw [hc]; exact mem_cons_self)]
      exact fun hne => by cases hne
    constructor
    · rfl
    · simp only [outgoing, hw, onLane_append, Option.toList_some, Option.toList_none, onLane_nil,
        onLane_cons_other hf, append_nil]
    · simp
  · constructor
    · rfl
    · simp [outgoing, hw, ho]
    · simp

theorem deliver_flows (h : e.deliver caps = some e') (id : ℕ) : Flows id e e' [] [] := by
  obtain ⟨f, -, hr, rfl⟩ := deliver_cases h
  constructor
  · simp [incoming, hr]
  · simp [outgoing]
  · simp

theorem resume_side {next : Next} (h : e.resume caps = some (e', next))
    (hn : next = .done ∨ ∃ nonce, next = .ping nonce) (maxData : ℕ) (known : Bool) (id : ℕ) :
    ∃ out, SideMove maxData id (e.side known id) (e'.side known id) out ∧ Flows id e e' [] out := by
  obtain ⟨hend, hcase⟩ := resume_cases h
  have hrun : (e.side known id).ended = false := by simp [side, hend]
  cases hcase with
  | @ordered f next ha =>
    refine ⟨onLane id [f], ?_, .queued [f] rfl rfl rfl rfl rfl⟩
    by_cases hf : f.lane = some id
    · rw [onLane_all (by simpa using hf)]
      have hon : (e.side known id).await = .ordered f next := by simp [side, ha, Await.on, hf]
      exact SideMove.sent hrun hon hf hn
    · rw [onLane_none (by simpa using hf)]
      have hside : ({ e.enqueue f with await := .idle } : Endpoint σ).side known id =
          e.side known id := side_congr rfl rfl (by simp [ha, Await.on, hf]) rfl rfl
      exact .of_eq hside
  | control ha =>
    exact ⟨[], .of_eq (side_congr rfl rfl (by simp [ha, Await.on]) rfl rfl),
      .same rfl rfl rfl rfl rfl⟩
  | @closeFound i reason s ha hs hg hq =>
    refine ⟨[], ?_, .same rfl rfl rfl rfl rfl⟩
    by_cases hi : i = id
    · subst hi
      rw [side_setStream]
      exact .closeFound hrun (side_await ha (if_pos rfl)) hs hg hq
    · exact .of_eq (side_setStream_ne hi (by simp [ha, Await.on, hi]))
  | @closeTaken i reason s ha hs hg hq =>
    refine ⟨[], ?_, .same rfl rfl rfl rfl rfl⟩
    by_cases hi : i = id
    · subst hi
      rw [side_setStream, Await.on, if_pos rfl]
      exact .closeTaken hrun (side_await ha (if_pos rfl)) hs hg hq
    · exact .of_eq (side_setStream_ne hi (by simp [ha, Await.on, hi]))
  | @closeSent i reason s ha hs =>
    refine ⟨onLane id [.close i reason], ?_, .queued _ rfl rfl rfl rfl rfl⟩
    by_cases hi : i = id
    · subst hi
      rw [onLane_all (by simp [Frame.lane, Frame.streamId])]
      have hmove : SideMove maxData i (e.side known i) _ [.close i reason] :=
        .closeSent hrun (side_await ha (if_pos rfl)) hs
      simpa [side, setStream, Await.on, enqueue] using hmove
    · rw [onLane_other rfl (Ne.symm hi)]
      exact .of_eq (side_congr rfl (Table.lookup_set_of_ne (Ne.symm hi))
        (by simp [ha, Await.on, hi]) rfl rfl)
  | @pushed i payload s s' ha hs hg hp =>
    refine ⟨[], ?_, .same rfl rfl rfl rfl rfl⟩
    by_cases hi : i = id
    · subst hi
      rw [side_setStream]
      exact .pushed hrun (side_await ha (if_pos rfl)) hs hg hp
    · exact .of_eq (side_setStream_ne hi (by simp [ha, Await.on, hi]))
  | @refused i payload s error ha hs hg hp =>
    refine ⟨[], ?_, .same rfl rfl rfl rfl rfl⟩
    by_cases hi : i = id
    · subst hi
      exact .refused hrun (side_await ha (if_pos rfl)) hs hg hp
    · exact .stop

theorem Turn.taken_none (h : e.Turn limits caps fs e') (id : ℕ) : onLane id fs = [] := by
  cases h <;> rfl

theorem Turn.side (ht : ∀ f ∈ e.control, f.lane = none) (h : e.Turn limits caps fs e')
    (known : Bool) (id : ℕ) :
    ∃ out, SideMove limits.maxData id (e.side known id) (e'.side known id) out ∧
      Flows id e e' (onLane id fs) out := by
  cases h with
  | stream h => exact streamStep_side h known id
  | pick h =>
    refine ⟨[], .of_eq ?_, pick_flows ht h id⟩
    obtain ⟨-, -, ⟨f, cs, -, rfl⟩ | ⟨f, os, -, rfl⟩⟩ := pick_cases h <;> rfl
  | deliver h =>
    refine ⟨[], .of_eq ?_, deliver_flows h id⟩
    obtain ⟨f, -, -, rfl⟩ := deliver_cases h
    rfl
  | keepalive h =>
    obtain ⟨-, hidle, rfl | ⟨-, rfl⟩⟩ := keepalive_cases h
    · exact ⟨[], .of_eq rfl, .same rfl rfl rfl rfl rfl⟩
    · exact ⟨[], .of_eq (side_congr rfl rfl (by rw [hidle]; rfl) rfl rfl), .same rfl rfl rfl rfl rfl⟩
  | ping hready hf =>
    obtain ⟨-, hidle⟩ := ready_iff.mp hready
    exact ⟨[], .of_eq (side_congr rfl rfl (by rw [hidle]; rfl) rfl rfl),
      .handled _ hf rfl rfl rfl rfl⟩
  | pong hready hf =>
    unfold onPong
    split
    · exact ⟨[], .of_eq rfl, .handled _ hf rfl rfl rfl rfl⟩
    · exact ⟨[], .stop, .handled _ hf rfl rfl rfl rfl⟩
  | resume h => exact resume_side h (.inl rfl) limits.maxData known id
  | pinged h =>
    obtain ⟨out, hmove, hflow⟩ := resume_side h (.inr ⟨_, rfl⟩) limits.maxData known id
    exact ⟨out, hmove, hflow.incoming, hflow.outgoing, hflow.logged⟩
  | fail => exact ⟨[], .stop, .same rfl rfl rfl rfl rfl⟩
  | teardown hend hs =>
    rename_i i error s
    refine ⟨[], ?_, .same rfl rfl rfl rfl rfl⟩
    by_cases hi : i = id
    · subst hi
      have hmove : SideMove limits.maxData i (e.side known i)
          { e.side known i with stream := some { s.sessionFailure error with aborted := true } } [] :=
        .torn (by simp [side, hend]) hs
      simpa [side, setStream] using hmove
    · exact .of_eq (side_congr rfl (Table.lookup_set_of_ne (Ne.symm hi)) rfl rfl rfl)

end Endpoint

end Alighieri.Rdp
