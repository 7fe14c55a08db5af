import Alighieri.Rdp.Decoder
import Alighieri.Rdp.Diagnostic
import Alighieri.Rdp.SideSound

/-!
# Every frame that is queued can be written (protocol.rs:371-412, 751-759; mux.rs:964-1149,
1364-1835, 2010-2496)

`write_frame` fails with a protocol error on a frame that does not pass `Frame::validate`. The
frames are followed from where they are made to the two queues: what a caller, the peer, the
resolver or the operating system contributes to them has been checked or cut before.
-/

namespace Alighieri.Rdp
open Net Lts List Option Except

variable {f : Frame} {i port window : ℕ} {addresses : List SocketAddr} {s s' : Stream}
  {await : Await} {x : Entry ClientStreamState} {r : ClientHandled} {c c' : Client}
  {policy : AgentPolicy} {a a' : Agent} {ty : MessageType} {address : SocketAddr} {hostname : Text}
  {cmd : ClientCommand} {alive : Bool} {standing : Standing} {op : Operation} {v : AgentView}

/- `write_frame`; `writeAll` is the transport's answer to the bytes. -/
def writeFrame (writeAll : Bytes → Except IoFault Unit) (f : Frame) :
    Except (IoFault ⊕ ProtocolError) Unit :=
  match f.encode with
  | .error e => .error (.inr e)
  | .ok encoded =>
    match writeAll encoded with
    | .error e => .error (.inl e)
    | .ok _ => .ok ()

theorem writeFrame_of_validate (h : f.validate = .ok ()) (writeAll : Bytes → Except IoFault Unit)
    (e : ProtocolError) : writeFrame writeAll f ≠ .error (.inr e) := by
  unfold writeFrame
  rw [encode_of_validate h]
  intro he
  dsimp only at he
  split at he <;> cases he

/-! ### Valid frames -/

theorem validateStreamId_of_ne {id : ℕ} (hty : ty.isSession = false) (hid : id ≠ 0) :
    validateStreamId ty id = .ok () := by
  rw [validateStreamId, if_neg (by rw [hty]; exact Bool.false_ne_true), if_neg hid]

theorem validatePort_of_ne (h : port ≠ 0) :
    validatePort ty port = .ok () := if_neg h

theorem streamId_ne_zero (hf : f.messageType.isSession = false) (h : f.validate = .ok ()) :
    f.streamId ≠ 0 := by
  intro hid
  have hbad := (bodyValid_of_validate h).1
  rw [validateStreamId, hf, hid] at hbad
  cases hbad

section Valid

variable {id : ℕ} (hid : id ≠ 0)
include hid

theorem close_valid (reason : CloseReason) : (Frame.close id reason).validate = .ok () :=
  bind_of_ok (validateStreamId_of_ne rfl hid)

theorem shutdownWrite_valid : (Frame.shutdownWrite id).validate = .ok () :=
  bind_of_ok (validateStreamId_of_ne rfl hid)

theorem windowUpdate_valid {credit : ℕ} (h : credit ≠ 0) :
    (Frame.windowUpdate id credit).validate = .ok () :=
  (bind_of_ok (validateStreamId_of_ne rfl hid)).trans (if_neg h)

theorem data_valid {payload : Bytes} (hne : payload ≠ []) (hle : payload.length ≤ maxDataPayload) :
    (Frame.data id payload).validate = .ok () :=
  (bind_of_ok (validateStreamId_of_ne rfl hid)).trans
    ((if_neg hne).trans (if_neg (Nat.not_lt.mpr hle)))

theorem openTo_valid (h : address.port ≠ 0) : (Frame.openTo id address).validate = .ok () :=
  (bind_of_ok (validateStreamId_of_ne rfl hid)).trans (validatePort_of_ne h)

theorem openOk_valid {bound : SocketAddr} (h : bound.port ≠ 0) :
    (Frame.openOk id bound).validate = .ok () :=
  (bind_of_ok (validateStreamId_of_ne rfl hid)).trans (validatePort_of_ne h)

theorem resolveOk_valid (h : validateAddressList addresses = .ok ()) :
    (Frame.resolveOk id addresses).validate = .ok () :=
  (bind_of_ok (validateStreamId_of_ne rfl hid)).trans h

theorem openErrorFrame_valid (code : OpenErrorCode) (diagnostic : Text) :
    (openErrorFrame id code diagnostic).validate = .ok () := by
  have hlen := safeDiagnostic_len diagnostic maxDiagnosticLen
  have hplain := safeDiagnostic_plain diagnostic maxDiagnosticLen
  refine (bind_of_ok (validateStreamId_of_ne rfl hid)).trans ?_
  refine (if_neg (Nat.not_lt.mpr hlen)).trans (if_neg ?_)
  rw [hplain]
  exact Bool.false_ne_true

end Valid

theorem resolve_port_ne {id : ℕ} (h : (Frame.resolve id port hostname).validate = .ok ()) :
    port ≠ 0 := by
  obtain ⟨u, -, hbody⟩ := of_bind_ok h
  obtain ⟨v, hport, -⟩ := of_bind_ok hbody
  rintro rfl
  cases hport

theorem openTo_port_ne {id : ℕ} (h : (Frame.openTo id address).validate = .ok ()) :
    address.port ≠ 0 := by
  obtain ⟨u, -, hport⟩ := of_bind_ok h
  intro hzero
  have hport' : validatePort .openTo address.port = .ok () := hport
  rw [hzero] at hport'
  cases hport'

theorem resolve_valid {id : ℕ} (hid : id ≠ 0)
    (h : (Frame.resolve 1 port hostname).validate = .ok ()) :
    (Frame.resolve id port hostname).validate = .ok () := by
  obtain ⟨u, -, hbody⟩ := of_bind_ok h
  exact (bind_of_ok (validateStreamId_of_ne rfl hid)).trans hbody

/-! ### The answer of the resolver -/

theorem validateAddresses_of_distinct {unique : List SocketAddr}
    (hcanon : ∀ a ∈ addresses, canonicalizeAddress a = a) (hport : ∀ a ∈ addresses, a.port ≠ 0)
    (hnodup : addresses.Nodup) (hnew : ∀ a ∈ addresses, a ∉ unique) :
    validateAddresses unique addresses = .ok () := by
  induction addresses generalizing unique with
  | nil => rfl
  | cons a rest ih =>
    have ha : a ∈ a :: rest := mem_cons_self
    have hrest : ∀ b ∈ rest, b ∈ a :: rest := fun b hb => mem_cons_of_mem a hb
    obtain ⟨hout, hnodup'⟩ := nodup_cons.mp hnodup
    rw [validateAddresses, hcanon a ha, bind_of_ok (validatePort_of_ne (hport a ha)),
      if_neg (hnew a ha)]
    refine ih (fun b hb => hcanon b (hrest b hb)) (fun b hb => hport b (hrest b hb)) hnodup' ?_
    intro b hb hmem
    rcases mem_cons.mp hmem with rfl | hmem
    · exact hout hb
    · exact hnew b (hrest b hb) hmem

theorem collectAddresses_distinct (policy : AgentPolicy) (raw : List SocketAddr)
    {result : List SocketAddr}
    (hcanon : ∀ a ∈ result, canonicalizeAddress a = a) (hnodup : result.Nodup)
    (hlen : result.length < maxResolveAddresses) :
    (∀ a ∈ collectAddresses policy result raw, canonicalizeAddress a = a) ∧
      (collectAddresses policy result raw).Nodup ∧
      (collectAddresses policy result raw).length ≤ maxResolveAddresses := by
  induction raw generalizing result with
  | nil => exact ⟨hcanon, hnodup, Nat.le_of_lt hlen⟩
  | cons b rest ih =>
    simp only [collectAddresses]
    split
    · rename_i hnew
      simp only [Bool.and_eq_true, Bool.not_eq_true', contains_eq_mem,
        decide_eq_false_iff_not] at hnew
      have hcanon' : ∀ a ∈ result ++ [canonicalizeAddress b], canonicalizeAddress a = a := by
        intro a ha
        rcases mem_append.mp ha with ha | ha
        · exact hcanon a ha
        · rw [mem_singleton.mp ha, canonicalizeAddress_idem]
      have hnodup' : (result ++ [canonicalizeAddress b]).Nodup := by
        refine nodup_append.mpr ⟨hnodup, nodup_singleton _, ?_⟩
        rintro a ha c hc rfl
        rw [mem_singleton.mp hc] at ha
        exact hnew.2 ha
      have hsnoc : (result ++ [canonicalizeAddress b]).length = result.length + 1 := by simp
      split
      · rename_i hfull
        exact ⟨hcanon', hnodup', Nat.le_of_eq hfull⟩
      · exact ih hcanon' hnodup' (by omega)
    · exact ih hcanon hnodup hlen

theorem resolveRemote_valid (policy : AgentPolicy) (hport : port ≠ 0) (answer : List SocketAddr) :
    validateAddressList (resolveRemote policy port answer) = .ok () := by
  have hports := resolveRemote_port policy port answer
  obtain ⟨hcanon, hnodup, hlen⟩ := collectAddresses_distinct policy (answer.map (withPort port))
    (by simp) nodup_nil (by decide)
  refine (if_neg (Nat.not_lt.mpr hlen)).trans ?_
  refine validateAddresses_of_distinct hcanon (fun a ha => ?_) hnodup (by simp)
  rw [hports a ha]
  exact hport

/-! ### The frames of a stream's workers -/

theorem valid_single {g : Frame} (h : g.validate = .ok ()) : ∀ f ∈ [g], f.validate = .ok () := by
  intro f hf
  rw [mem_singleton.mp hf]
  exact h

theorem valid_append {fs gs : List Frame} (hfs : ∀ f ∈ fs, f.validate = .ok ())
    (hgs : ∀ f ∈ gs, f.validate = .ok ()) : ∀ f ∈ fs ++ gs, f.validate = .ok () := by
  intro f hf
  rcases mem_append.mp hf with hf | hf
  · exact hfs f hf
  · exact hgs f hf

theorem Stream.step_valid {limits : NegotiatedLimits} {id : ℕ} {act : StreamAct} {eff : Effect}
    (hs : s.Sound limits.maxData window) (hid : id ≠ 0)
    (h : s.step limits.maxData id act = some (s', eff)) :
    ∀ f ∈ eff.frames, f.validate = .ok () := by
  intro f hf
  rcases Stream.step_frames h hf with ⟨payload, hat, rfl⟩ | rfl | ⟨reason, rfl⟩ | ⟨credit, hat, rfl⟩
  · have hpc := hs.pc
    rw [Stream.PcSound, hat] at hpc
    exact data_valid hid hpc.1 (Nat.le_trans hpc.2.1 limits.maxData_le)
  · exact shutdownWrite_valid hid
  · exact close_valid hid reason
  · exact windowUpdate_valid hid (Nat.ne_of_gt (hs.publishes _ hat).1)

/-! ### What an endpoint holds -/

def Await.Clean : Await → Prop
  | .ordered f next | .control f next =>
    f.validate = .ok () ∧ ∀ id, next.inserts = some id → id ≠ 0
  | .closeGate id _ | .closeSend id _ => id ≠ 0
  | .idle | .creditGate _ _ => True

theorem Await.Clean.of_valid (h : f.validate = .ok ()) :
    (Await.ordered f .done).Clean := ⟨h, fun _ hn => by cases hn⟩

/-- The identifier of a stream that has an entry may go into a frame; `P` is what is known of
the states. -/
structure Entry.Clean {σ : Type} (P : σ → Prop) (id : ℕ) (x : Entry σ) : Prop where
  state : ∀ st, x.state = some st → id ≠ 0 ∧ P st
  stream : x.stream ≠ none → id ≠ 0

/-- Every frame that has been queued or is going to be queued is valid. -/
structure Endpoint.Clean {σ : Type} (P : σ → Prop) (e : Endpoint σ) : Prop where
  control : ∀ f ∈ e.control, f.validate = .ok ()
  ordered : ∀ f ∈ e.ordered, f.validate = .ok ()
  log : ∀ f ∈ e.log, f.validate = .ok ()
  writer : ∀ f, e.writer = some f → f.validate = .ok ()
  await : e.await.Clean
  entries : ∀ id, (e.entry id).Clean P id

namespace Endpoint

variable {σ : Type} {P : σ → Prop} {e e' : Endpoint σ} {limits : NegotiatedLimits} {caps : Caps}

theorem entry_setEntry (e : Endpoint σ) (i id : ℕ) (x : Entry σ) :
    (e.setEntry i x).entry id = if id = i then x else e.entry id := by
  simp only [entry, setEntry, Table.lookup_set]
  split <;> rfl

theorem entry_setStream (e : Endpoint σ) (i id : ℕ) (s : Stream) :
    (e.setStream i s).entry id =
      if id = i then ⟨e.streams.lookup i, some s⟩ else e.entry id := by
  simp only [entry, setStream, Table.lookup_set]
  split
  · rename_i hi
    rw [hi]
  · rfl

theorem Clean.start : (Endpoint.start : Endpoint σ).Clean P := by
  have hnone : ∀ f ∈ ([] : List Frame), f.validate = .ok () := by simp
  refine ⟨hnone, hnone, hnone, by simp [Endpoint.start], by trivial, fun id => ?_⟩
  exact ⟨(fun st hst => by cases hst), fun hs => absurd rfl hs⟩

variable (h : e.Clean P)
include h

theorem Clean.same (hc : e'.control = e.control) (ho : e'.ordered = e.ordered) (hl : e'.log = e.log)
    (hw : e'.writer = e.writer) (ha : e'.await = e.await) (hs : e'.streams = e.streams)
    (hlive : e'.live = e.live) : e'.Clean P := by
  refine ⟨hc ▸ h.control, ho ▸ h.ordered, hl ▸ h.log, hw ▸ h.writer, ha ▸ h.await, fun id => ?_⟩
  have hentry : e'.entry id = e.entry id := by rw [entry, entry, hs, hlive]
  rw [hentry]
  exact h.entries id

theorem Clean.restream (hs : e.live.lookup i = some s) (id : ℕ) :
    ((e.setStream i s').entry id).Clean P id := by
  rw [entry_setStream]
  split
  · rename_i hi
    subst hi
    refine ⟨(h.entries id).state, fun _ => (h.entries id).stream ?_⟩
    show e.live.lookup id ≠ none
    rw [hs]
    exact some_ne_none s
  · exact h.entries id

theorem Clean.setStream (hs : e.live.lookup i = some s) :
    (e.setStream i s').Clean P :=
  { h with entries := h.restream hs }

theorem Clean.live_ne {id : ℕ} (hs : e.live.lookup id = some s) : id ≠ 0 := by
  refine (h.entries id).stream ?_
  show e.live.lookup id ≠ none
  rw [hs]
  exact some_ne_none s

theorem Clean.setEntry {x : Entry σ} (hx : x.Clean P i) :
    (e.setEntry i x).Clean P := by
  refine { h with entries := fun id => ?_ }
  rw [entry_setEntry]
  split
  · rename_i hi
    rw [hi]
    exact hx
  · exact h.entries id

theorem Clean.setAwait (ha : await.Clean) :
    ({ e with await := await } : Endpoint σ).Clean P :=
  { h with await := ha }

theorem Clean.setFrames (frames : List Frame) :
    ({ e with frames := frames } : Endpoint σ).Clean P :=
  { h with }

theorem Clean.sent : ({ e with writer := none } : Endpoint σ).Clean P :=
  { h with writer := (fun f hf => by cases hf) }

theorem Clean.fail (error : MuxError) : (e.fail error).Clean P :=
  { h with }

theorem Clean.enqueue (hf : f.validate = .ok ()) : (e.enqueue f).Clean P :=
  { h with
    ordered := valid_append h.ordered (valid_single hf)
    log := valid_append h.log (valid_single hf) }

theorem Clean.streamStep {a : StreamAct}
    (hsound : ∀ s, e.live.lookup i = some s → s.Sound limits.maxData window)
    (ha : e.streamStep limits caps i a = some e') : e'.Clean P := by
  obtain ⟨s, s', eff, r, -, hs, hstep, rfl⟩ := streamStep_cases ha
  have hnew := Stream.step_valid (hsound s hs) (h.live_ne hs) hstep
  exact ⟨h.control, valid_append h.ordered hnew, valid_append h.log hnew, h.writer, h.await,
    h.restream hs⟩

theorem Clean.pick {raced : Bool} (hp : e.pick raced = some e') : e'.Clean P := by
  obtain ⟨-, -, ⟨f, cs, hc, rfl⟩ | ⟨f, os, ho, rfl⟩⟩ := pick_cases hp
  · have hall := h.control
    rw [hc] at hall
    obtain ⟨hf, hcs⟩ := forall_mem_cons.mp hall
    exact ⟨hcs, h.ordered, h.log, fun g hg => by cases hg; exact hf, h.await, h.entries⟩
  · have hall := h.ordered
    rw [ho] at hall
    obtain ⟨hf, hos⟩ := forall_mem_cons.mp hall
    exact ⟨h.control, hos, h.log, fun g hg => by cases hg; exact hf, h.await, h.entries⟩

theorem Clean.deliver (hd : e.deliver caps = some e') : e'.Clean P := by
  obtain ⟨f, -, -, rfl⟩ := deliver_cases hd
  exact { h with }

theorem Clean.keepalive {nonce : ℕ} (hk : e.keepalive nonce = some e') :
    e'.Clean P := by
  obtain ⟨-, -, rfl | ⟨-, rfl⟩⟩ := keepalive_cases hk
  · exact h
  · exact h.setAwait ⟨rfl, fun _ hn => by cases hn⟩

theorem Clean.onPong (nonce : ℕ) : (e.onPong nonce).Clean P := by
  unfold Endpoint.onPong
  split
  · exact { h with }
  · exact h.fail _

theorem Clean.resume {next : Next} (hr : e.resume caps = some (e', next)) :
    e'.Clean P ∧ ∀ id, next.inserts = some id → id ≠ 0 := by
  have hawait := h.await
  cases (resume_cases hr).2 with
  | ordered ha =>
    rw [ha] at hawait
    exact ⟨(h.enqueue hawait.1).setAwait trivial, hawait.2⟩
  | control ha =>
    rw [ha] at hawait
    refine ⟨?_, hawait.2⟩
    exact { h with control := valid_append h.control (valid_single hawait.1), await := by trivial }
  | closeFound ha hs | pushed ha hs => exact ⟨(h.setStream hs).setAwait trivial, nofun⟩
  | closeTaken ha hs =>
    rw [ha] at hawait
    exact ⟨(h.setStream hs).setAwait hawait, nofun⟩
  | closeSent ha hs =>
    rw [ha] at hawait
    exact ⟨((h.setStream hs).enqueue (close_valid hawait _)).setAwait trivial, nofun⟩
  | refused => exact ⟨h.fail _, nofun⟩

theorem Clean.turn {fs : List Frame}
    (hsound : ∀ i s, e.live.lookup i = some s → s.Sound limits.maxData window)
    (ht : e.Turn limits caps fs e') : e'.Clean P := by
  cases ht with
  | stream hs => exact h.streamStep (hsound _) hs
  | pick hp => exact h.pick hp
  | deliver hd => exact h.deliver hd
  | keepalive hk => exact h.keepalive hk
  | ping => exact (h.setFrames _).setAwait ⟨rfl, fun _ hn => by cases hn⟩
  | pong => exact (h.setFrames _).onPong _
  | resume hr => exact (h.resume hr).1
  | pinged hr => exact (h.resume hr).1.same rfl rfl rfl rfl rfl rfl rfl
  | fail => exact h.fail _
  | teardown hend hs => exact h.setStream hs

end Endpoint

/-! ### The client -/

def ClientStreamState.Ported : ClientStreamState → Prop
  | .resolving port => port ≠ 0
  | .resolved candidates | .opening (some candidates) _ => ∀ a ∈ candidates, a.port ≠ 0
  | .opening none _ | .opened _ | .closing _ => True

def ClientCommand.Checked : ClientCommand → Prop
  | .resolve id hostname port => (Frame.resolve id port hostname).validate = .ok ()
  | .openIp id address => (Frame.openTo id address).validate = .ok ()
  | .openTo _ _ _ | .close _ => True

abbrev Entry.ClientClean (id : ℕ) (x : Entry ClientStreamState) : Prop :=
  x.Clean ClientStreamState.Ported id

theorem Entry.Clean.update {σ : Type} {P : σ → Prop} {id : ℕ} {x : Entry σ} (h : x.Clean P id)
    {st : Option σ} {s : Option Stream} (hst : ∀ t, st = some t → id ≠ 0 ∧ P t)
    (hs : s ≠ none → x.stream ≠ none) : (Entry.mk st s).Clean P id :=
  ⟨hst, fun hne => h.stream (hs hne)⟩

theorem map_ne_none {f : Stream → Stream} {s : Option Stream} (h : s.map f ≠ none) : s ≠ none := by
  rintro rfl
  exact h rfl

theorem CommandCase.clean (hx : x.ClientClean (Client.commandId cmd)) (hc : cmd.Checked)
    {full : Bool} (h : CommandCase full x r cmd) :
    r.entry.ClientClean (Client.commandId cmd) ∧ r.await.Clean := by
  cases h with
  | keep =>
    exact ⟨hx, trivial⟩
  | resolve hst =>
    rename_i id port hostname
    have hid : id ≠ 0 := streamId_ne_zero rfl hc
    refine ⟨hx.update ?_ (fun hne => hne), .of_valid hc⟩
    rintro t ⟨⟩
    exact ⟨hid, resolve_port_ne hc⟩
  | openTo hst hmem =>
    obtain ⟨hid, hports⟩ := hx.state _ hst
    refine ⟨hx.update ?_ (fun hne => hne), .of_valid (openTo_valid hid (hports _ hmem))⟩
    rintro t ⟨⟩
    exact ⟨hid, hports⟩
  | openIp hst =>
    rename_i id address
    have hid : id ≠ 0 := streamId_ne_zero rfl hc
    refine ⟨hx.update ?_ (fun hne => hne), .of_valid hc⟩
    rintro t ⟨⟩
    exact ⟨hid, trivial⟩
  | closeOpened hst =>
    have hid := (hx.state _ hst).1
    refine ⟨hx.update ?_ map_ne_none, hid⟩
    rintro t ⟨⟩
    exact ⟨hid, trivial⟩
  | closeEarly permit hst hearly =>
    have hid := (hx.state _ hst).1
    refine ⟨hx.update ?_ (fun hne => hne), .of_valid (close_valid hid _)⟩
    rintro t ⟨⟩
    exact ⟨hid, trivial⟩

theorem clientResolveOk_ports {id : ℕ} (hx : x.state = some (.resolving port))
    (h : clientResolveOk alive x id addresses = .ok r) : ∀ a ∈ addresses, a.port = port := by
  unfold clientResolveOk at h
  rw [hx] at h
  dsimp only at h
  split at h
  · cases h
  rename_i hany
  intro a ha
  by_contra hne
  exact hany (any_eq_true.mpr ⟨a, ha, decide_eq_true hne⟩)

theorem FlowCase.await_clean {limits : NegotiatedLimits} {stream s : Option Stream}
    (h : FlowCase limits standing stream f s await) : await.Clean := by
  cases h <;> trivial

theorem FlowCase.stream_ne {limits : NegotiatedLimits} {stream s : Option Stream}
    (h : FlowCase limits standing stream f s await) (hs : s ≠ none) : stream ≠ none := by
  cases h with
  | ignored | data => exact hs
  | shutdown ht hstream | credit ht hstream => rw [hstream]; exact some_ne_none _
  | missing => exact absurd rfl hs

theorem handleClientFrame_clean {limits : NegotiatedLimits} (hx : x.ClientClean f.streamId)
    (h : handleClientFrame limits alive x f = .ok r) :
    r.entry.ClientClean f.streamId ∧ r.await.Clean := by
  have hnone : ∀ t : ClientStreamState, (none : Option ClientStreamState) = some t →
      f.streamId ≠ 0 ∧ t.Ported := fun t ht => by cases ht
  have hcase := handleClientFrame_case h
  cases hcase with
  | flow hc =>
    exact ⟨hx.update hx.state hc.stream_ne, hc.await_clean⟩
  | late hst hf =>
    exact ⟨hx, trivial⟩
  | resolved hst hne =>
    obtain ⟨hid, hport⟩ := hx.state _ hst
    have hports := clientResolveOk_ports hst h
    refine ⟨hx.update ?_ (fun hne => hne), trivial⟩
    rintro t ⟨⟩
    refine ⟨hid, fun a ha => ?_⟩
    rw [hports a ha]
    exact hport
  | emptied hst he | resolveFailed hst | closeLast hst =>
    exact ⟨hx.update hnone (fun hne => hne), trivial⟩
  | abandoned hst hne =>
    have hid := (hx.state _ hst).1
    refine ⟨hx.update ?_ (fun hne => hne), .of_valid (close_valid hid _)⟩
    rintro t ⟨⟩
    exact ⟨hid, trivial⟩
  | opened hst =>
    have hid := (hx.state _ hst).1
    refine ⟨⟨?_, fun _ => hid⟩, trivial⟩
    rintro t ⟨⟩
    exact ⟨hid, trivial⟩
  | openFailed hst =>
    obtain ⟨hid, hports⟩ := hx.state _ hst
    refine ⟨hx.update ?_ (fun hne => hne), trivial⟩
    intro t ht
    obtain ⟨as, rfl, rfl⟩ := map_eq_some_iff.mp ht
    exact ⟨hid, hports⟩
  | closeOpened hst =>
    exact ⟨hx.update hnone map_ne_none, (hx.state _ hst).1⟩
  | closeEarly hst hearly =>
    exact ⟨hx.update hnone (fun hne => hne), .of_valid (close_valid (hx.state _ hst).1 _)⟩

theorem clientWorkerEvent_clean {id : ℕ} (hx : x.ClientClean id) (w : WorkerEvent) :
    (clientWorkerEvent x w).ClientClean id := by
  obtain ⟨state, stream⟩ := x
  cases w with
  | localCloseQueued i =>
    simp only [clientWorkerEvent]
    split
    · refine hx.update ?_ map_ne_none
      rintro t ⟨⟩
      exact ⟨(hx.state _ rfl).1, trivial⟩
    · exact hx
  | stopped i =>
    simp only [clientWorkerEvent]
    split
    · exact hx.update (fun t ht => by cases ht) map_ne_none
    · exact hx

structure Client.Clean (limits : NegotiatedLimits) (c : Client) : Prop where
  sound : c.Sound limits
  ep : c.ep.Clean ClientStreamState.Ported
  commands : ∀ cmd ∈ c.commands, cmd.Checked

theorem Client.Clean.start (limits : NegotiatedLimits) : Client.start.Clean limits :=
  ⟨.start limits, .start, by simp [Client.start]⟩

theorem Client.settle_clean {id : ℕ} {r : Except MuxError ClientHandled}
    (h : c.ep.Clean ClientStreamState.Ported)
    (hr : ∀ x, r = .ok x → x.entry.ClientClean id ∧ x.await.Clean) :
    (c.settle id r).ep.Clean ClientStreamState.Ported := by
  cases r with
  | ok x =>
    obtain ⟨hentry, hawait⟩ := hr x rfl
    exact (h.setEntry hentry).setAwait hawait
  | error e => exact h.fail e

theorem Client.Clean.snoc {limits : NegotiatedLimits} (hc : c.Clean limits) (hcmd : cmd.Checked) :
    ∀ cmd' ∈ c.commands ++ [cmd], cmd'.Checked := by
  intro cmd' hmem
  rcases mem_append.mp hmem with hm | hm
  · exact hc.commands cmd' hm
  · rw [mem_singleton.mp hm]
    exact hcmd

theorem Client.Clean.step {limits : NegotiatedLimits} {caps : Caps} {act : ClientAct}
    (hc : c.Clean limits) (h : c.step limits caps act = some c') : c'.Clean limits := by
  suffices hrest : c'.ep.Clean ClientStreamState.Ported ∧ ∀ cmd ∈ c'.commands, cmd.Checked from
    ⟨hc.sound.step h, hrest.1, hrest.2⟩
  have hnext : c.nextStreamId ≠ 0 := by
    have hodd := hc.sound.orderly.book.odd
    omega
  cases Client.step_cases h with
  | turn hact ht => exact ⟨hc.ep.turn (fun i => (hc.sound.sides i).stream) ht, hc.commands⟩
  | resolve hv => exact ⟨hc.ep, hc.snoc (resolve_valid hnext hv)⟩
  | openIp hv => exact ⟨hc.ep, hc.snoc (openTo_valid hnext (openTo_port_ne hv))⟩
  | openTo | close => exact ⟨hc.ep, hc.snoc (by trivial)⟩
  | skipId => exact ⟨hc.ep, hc.commands⟩
  | command hready hcmd =>
    have hall := hc.commands
    rw [hcmd] at hall
    obtain ⟨hchecked, hrest⟩ := forall_mem_cons.mp hall
    refine ⟨Client.settle_clean hc.ep fun x hx => ?_, ?_⟩
    · exact (handleClientCommand_case hx).clean (hc.ep.entries _) hchecked
    · rw [(Client.settle_commands _ _ _).1]
      exact hrest
  | frame =>
    refine ⟨Client.settle_clean (hc.ep.setFrames _) fun x hx => ?_, ?_⟩
    · exact handleClientFrame_clean (hc.ep.entries _) hx
    · rw [(Client.settle_commands _ _ _).1]
      exact hc.commands
  | event hready hw =>
    rename_i w rest
    have hset := hc.ep.setEntry (clientWorkerEvent_clean (hc.ep.entries w.id) w)
    exact ⟨hset.same rfl rfl rfl rfl rfl rfl rfl, hc.commands⟩
  | resume hr hn => exact ⟨(hc.ep.resume hr).1, hc.commands⟩

/-! ### The agent -/

def Operation.Clean : Operation → Prop
  | .resolve id _ port => id ≠ 0 ∧ port ≠ 0
  | .connect id _ => id ≠ 0

theorem Operation.Clean.id_ne (h : op.Clean) : op.id ≠ 0 := by
  cases op with
  | resolve => exact h.1
  | connect => exact h

/-- The operating system gives a connected socket a port. -/
def Answer.Bound : Answer → Prop
  | .socket (.ok (.ok localAddr)) => localAddr.port ≠ 0
  | _ => True

abbrev Entry.AgentClean (id : ℕ) (x : Entry AgentStreamState) : Prop := x.Clean (fun _ => True) id

theorem Entry.Clean.of_ne {id : ℕ} (hid : id ≠ 0) (x : Entry AgentStreamState) :
    x.AgentClean id := ⟨fun _ _ => ⟨hid, trivial⟩, fun _ => hid⟩

theorem AgentFrameCase.clean {x : Entry AgentStreamState} {r : AgentHandled}
    (hid : f.streamId ≠ 0) (hf : f.validate = .ok ()) (h : AgentFrameCase v x r f) :
    r.await.Clean ∧ ∀ op, r.spawned = some op → op.Clean := by
  cases h with
  | flow hc => exact ⟨hc.await_clean, nofun⟩
  | refusedNew code diagnostic hfrom =>
    refine ⟨?_, nofun⟩
    rcases hfrom with ⟨port, hostname, rfl⟩ | ⟨address, rfl⟩
    · exact .of_valid (openErrorFrame_valid hid code diagnostic)
    · exact .of_valid (openErrorFrame_valid hid code diagnostic)
  | resolve =>
    refine ⟨trivial, ?_⟩
    rintro op ⟨⟩
    exact ⟨hid, resolve_port_ne hf⟩
  | connectNew | connect =>
    refine ⟨trivial, ?_⟩
    rintro op ⟨⟩
    exact hid
  | refused code diagnostic =>
    exact ⟨.of_valid (openErrorFrame_valid hid code diagnostic), nofun⟩
  | closeStale | cancel | closeResolved => exact ⟨.of_valid (close_valid hid _), nofun⟩
  | closeLast | closeCancelled => exact ⟨trivial, nofun⟩
  | closeOpened => exact ⟨hid, nofun⟩

theorem handleAgentFrame_stream {x : Entry AgentStreamState} {r : AgentHandled}
    (hf : f.validate = .ok ()) (h : handleAgentFrame v x f = .ok r) : f.streamId ≠ 0 := by
  refine streamId_ne_zero ?_ hf
  cases f with
  | hello | ping | pong => cases h
  | _ => rfl

theorem finishAgentOperation_clean {x y : Entry AgentStreamState} {answer : Answer}
    {done : AgentOperation} (hop : op.Clean) (hbound : answer.Bound)
    (hd : op.finish policy answer = some done) (h : finishAgentOperation x done = .ok (y, await)) :
    await.Clean := by
  have hid : done.id ≠ 0 := by
    rw [Operation.finish_id hd]
    cases op with
    | resolve => exact hop.1
    | connect => exact hop
  cases finishAgentOperation_case h with
  | gone => trivial
  | unresolved code diagnostic | unopened code diagnostic =>
    exact .of_valid (openErrorFrame_valid hid _ _)
  | resolved =>
    cases op with
    | connect => cases answer <;> cases hd
    | resolve id hostname port =>
      rcases answer with (_ | found) | _ <;> cases hd
      refine ⟨resolveOk_valid hop.1 (resolveRemote_valid policy hop.2 found), ?_⟩
      rintro i ⟨⟩
      exact hid
  | opened bound =>
    cases op with
    | resolve => cases answer <;> cases hd
    | connect =>
      rcases answer with _ | _ <;> cases hd
      refine ⟨openOk_valid hop ?_, ?_⟩
      · rw [canonicalizeAddress_port]
        exact hbound
      · rintro i ⟨⟩
        exact hid

/-- The frames that come in have been decoded, so they are valid too. -/
structure Agent.Clean (limits : NegotiatedLimits) (a : Agent) : Prop where
  sound : a.Sound limits
  ep : a.ep.Clean (fun _ => True)
  reader : ∀ f, a.ep.reader = some f → f.validate = .ok ()
  frames : ∀ f ∈ a.ep.frames, f.validate = .ok ()
  operations : ∀ op ∈ a.operations, op.Clean

theorem Agent.Clean.start (limits : NegotiatedLimits) : Agent.start.Clean limits := by
  refine ⟨.start limits, .start, ?_, ?_, ?_⟩ <;> simp [Agent.start, Endpoint.start]

theorem Agent.Clean.incoming {limits : NegotiatedLimits} (ha : a.Clean limits) :
    ∀ f ∈ a.ep.reader.toList ++ a.ep.frames, f.validate = .ok () := by
  intro f hf
  rcases mem_append.mp hf with hf | hf
  · exact ha.reader f (mem_toList.mp hf)
  · exact ha.frames f hf

/-- What an agent is given: frames that `read_frame` has decoded, and connected sockets that
have a port. -/
def Agent.Fed (_ : Agent) : PeerAct AgentAct → Prop
  | .arrive f => ∃ reader rest, readFrame reader = .ok (f, rest)
  | .own (.finish _ answer) => answer.Bound
  | _ => True

theorem Agent.Clean.step {limits : NegotiatedLimits} {caps : Caps} {act : AgentAct}
    (ha : a.Clean limits) (hfed : a.Fed (.own act)) (h : a.step limits policy caps act = some a') :
    a'.Clean limits := by
  have hqueues := Agent.step_queues ha.sound.orderly.tidy h
  have hin : ∀ f ∈ a'.ep.reader.toList ++ a'.ep.frames, f.validate = .ok () := fun f hf =>
    ha.incoming f (hqueues.incoming f hf)
  suffices hrest : a'.ep.Clean (fun _ => True) ∧ ∀ op ∈ a'.operations, op.Clean from
    ⟨ha.sound.step h, hrest.1, fun f hf => hin f (mem_append_left _ (mem_toList.mpr hf)),
      fun f hf => hin f (mem_append_right _ hf), hrest.2⟩
  have hleft : ∀ i, ∀ op ∈ a.operations.eraseIdx i, op.Clean := fun i op hop =>
    ha.operations op (mem_of_mem_eraseIdx hop)
  cases Agent.step_cases h with
  | turn ht => exact ⟨ha.ep.turn (fun i => (ha.sound.sides i).stream) ht, ha.operations⟩
  | frame hready hf hping hpong =>
    rename_i f rest
    have hvalid : f.validate = .ok () := ha.frames f (by rw [hf]; exact mem_cons_self)
    have hep := ha.ep.setFrames rest
    cases hr : handleAgentFrame (a.view limits policy) (a.ep.entry f.streamId) f with
    | error e => exact ⟨hep.fail e, ha.operations⟩
    | ok r =>
      have hid := handleAgentFrame_stream hvalid hr
      obtain ⟨hawait, hspawn⟩ := (handleAgentFrame_case hr).clean hid hvalid
      refine ⟨(hep.setEntry (.of_ne hid _)).setAwait hawait, ?_⟩
      intro op hop
      rcases mem_append.mp hop with hop | hop
      · exact ha.operations op hop
      · exact hspawn op (mem_toList.mp hop)
  | event hready hw =>
    rename_i w rest
    have hentry : (agentWorkerEvent (a.ep.entry w.id) w).AgentClean w.id := by
      have hcase := agentWorkerEvent_case (a.ep.entry w.id) w
      generalize agentWorkerEvent (a.ep.entry w.id) w = y at hcase ⊢
      cases hcase with
      | ignored => exact ha.ep.entries w.id
      | retired hst => exact .of_ne ((ha.ep.entries w.id).state _ hst).1 _
    exact ⟨(ha.ep.setEntry hentry).same rfl rfl rfl rfl rfl rfl rfl, ha.operations⟩
  | finish hready hop hd hok =>
    rename_i i answer op done x await
    have hclean := ha.operations op (mem_of_getElem? hop)
    have hawait := finishAgentOperation_clean hclean hfed hd hok
    exact ⟨(ha.ep.setEntry (.of_ne hclean.id_ne x)).setAwait hawait, hleft i⟩
  | finishError => exact ⟨ha.ep.fail _, hleft _⟩
  | joinRelay => exact ⟨ha.ep, ha.operations⟩
  | resolved hr | opened hr =>
    obtain ⟨hep, hid⟩ := ha.ep.resume hr
    exact ⟨hep.setEntry (.of_ne (hid _ rfl) _), ha.operations⟩

/-! ### Against any peer -/

theorem readFrame_valid {reader rest : Bytes} (h : readFrame reader = .ok (f, rest)) :
    f.validate = .ok () := by
  unfold readFrame at h
  split at h
  · cases h
  split at h
  · cases h
  split at h
  · cases h
  split at h
  · cases h
  rename_i hdec
  cases h
  exact ((decodePayload_meets _ _).1 f hdec).2

theorem Client.Clean.meet {limits : NegotiatedLimits} {caps : Caps} {act : PeerAct ClientAct}
    (hc : c.Clean limits) (h : c.meet limits caps act = some c') : c'.Clean limits := by
  cases act with
  | arrive f =>
    obtain ⟨-, -, rfl⟩ := Endpoint.arrive_put h
    exact ⟨hc.sound.wire (some f) c.ep.writer, hc.ep.same rfl rfl rfl rfl rfl rfl rfl, hc.commands⟩
  | depart =>
    cases Endpoint.depart_put h
    exact ⟨hc.sound.wire c.ep.reader none, hc.ep.sent, hc.commands⟩
  | own act => exact hc.step h

theorem Agent.Clean.meet {limits : NegotiatedLimits} {caps : Caps} {act : PeerAct AgentAct}
    (ha : a.Clean limits) (hfed : a.Fed act) (h : a.meet limits policy caps act = some a') :
    a'.Clean limits := by
  cases act with
  | arrive f =>
    obtain ⟨reader, rest, hread⟩ := hfed
    obtain ⟨-, -, rfl⟩ := Endpoint.arrive_put h
    refine ⟨ha.sound.wire (some f) a.ep.writer, ha.ep.same rfl rfl rfl rfl rfl rfl rfl, ?_,
      ha.frames, ha.operations⟩
    rintro g ⟨⟩
    exact readFrame_valid hread
  | depart =>
    cases Endpoint.depart_put h
    exact { ha with sound := ha.sound.wire a.ep.reader none, ep := ha.ep.sent }
  | own act => exact ha.step hfed h

/-- What has been queued is valid (`log` is the whole history of the ordered queue), and what
the writer is given is written unless the transport fails. -/
structure Endpoint.Writable {σ : Type} (e : Endpoint σ) : Prop where
  control : ∀ f ∈ e.control, f.validate = .ok ()
  ordered : ∀ f ∈ e.ordered ++ e.log, f.validate = .ok ()
  writer : ∀ f, e.writer = some f → ∀ writeAll error, writeFrame writeAll f ≠ .error (.inr error)

theorem Endpoint.Clean.writable {σ : Type} {P : σ → Prop} {e : Endpoint σ} (h : e.Clean P) :
    e.Writable :=
  ⟨h.control, valid_append h.ordered h.log, fun f hf => writeFrame_of_validate (h.writer f hf)⟩

/-- The bytes that `truncate_utf8` leaves are whole characters at the start of the blanked text,
at most `maximum` bytes, none of them a control character. -/
structure SafeDiagnostic (value : Text) (maximum : ℕ) : Prop where
  bytes : truncateBytes (asBytes (value.map blankControl)) maximum =
    asBytes (safeDiagnostic value maximum)
  cut : safeDiagnostic value maximum <+: value.map blankControl
  bounded : utf8Len (safeDiagnostic value maximum) ≤ maximum
  plain : ∀ c ∈ safeDiagnostic value maximum, isControl c = false

/-- Either end queues valid frames only, and the HELLO of the handshake is valid too. -/
theorem queued_frames_valid (limits : NegotiatedLimits) (policy : AgentPolicy) (caps : Caps) :
    (∀ c, Reachable (Client.meet limits caps) Client.start c → c.ep.Writable) ∧
    (∀ a, ReachableBy (Agent.meet limits policy caps) Agent.Fed Agent.start a → a.ep.Writable) ∧
    (∀ role nonce writeAll error,
      writeFrame writeAll (.hello (.new role nonce)) ≠ .error (.inr error)) ∧
    ∀ value maximum, SafeDiagnostic value maximum := by
  refine ⟨fun c hc => ?_, fun a ha => ?_, fun role nonce => ?_, fun value maximum => ?_⟩
  · have hclean : c.Clean limits := hc.invariant (.start limits) fun _ _ _ hs ht => hs.meet ht
    exact hclean.ep.writable
  · have hclean : a.Clean limits := ha.invariant (.start limits) fun _ _ _ hs hok ht => hs.meet hok ht
    exact hclean.ep.writable
  · exact writeFrame_of_validate (f := .hello (.new role nonce)) rfl
  · refine ⟨truncateBytes_asBytes _ _, truncateUtf8_isPrefix _ _, safeDiagnostic_len _ _, ?_⟩
    intro c hc
    have hplain := List.any_eq_false.mp (safeDiagnostic_plain value maximum) c hc
    exact (Bool.not_eq_true _).mp hplain

def resolveBytes : Bytes :=
  [65, 76, 82, 68, 1, 2, 0, 0, 1, 0, 0, 0, 5, 0, 0, 0, 80, 0, 1, 0, 97]

def refusalRun : List (PeerAct AgentAct) :=
  [.arrive (.resolve 1 80 ['a']), .own .deliver, .own .frame,
    .own (.finish 0 (.lookup (.error ⟨.other, ['n', 'o', '\n']⟩))), .own .resume,
    .own (.pick false)]

theorem queued_frames_valid_refusal :
    ∃ a, ReachableBy (Agent.meet oneStream ⟨true, true, true⟩ smallCaps) Agent.Fed Agent.start a ∧
      a.ep.writer = some (.openError 1 .hostUnreachable ['n', 'o', ' ']) ∧ a.ep.Writable ∧
      Client.start.ep.Writable := by
  obtain ⟨a, ha, hw⟩ : ∃ a, exec (Agent.meet oneStream ⟨true, true, true⟩ smallCaps) Agent.start
      refusalRun = some a ∧
      a.ep.writer = some (.openError 1 .hostUnreachable ['n', 'o', ' ']) := ⟨_, rfl, rfl⟩
  have hfed : ∀ act ∈ refusalRun, ∀ a, Agent.Fed a act := by
    simp only [refusalRun, List.forall_mem_cons, Agent.Fed, Answer.Bound]
    exact ⟨fun _ => ⟨resolveBytes, [], rfl⟩, by simp⟩
  have hr := reachableBy_exec refusalRun hfed .start ha
  have hvalid := queued_frames_valid oneStream ⟨true, true, true⟩ smallCaps
  exact ⟨a, hr, hw, hvalid.2.1 a hr, hvalid.1 _ (.start _)⟩

end Alighieri.Rdp
