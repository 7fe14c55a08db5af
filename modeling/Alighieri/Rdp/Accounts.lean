import Alighieri.Rdp.Window
import Alighieri.Rdp.AgentSpeech

/-!
# What a move does to the bytes and the credit of its stream

A stream that has not been spawned counts as an unused one. DATA that the driver holds at the
receive gate has not been taken in yet (`recv`). Every move of a side is an `Account`.
-/

namespace Alighieri.Rdp
open Net Dialogue List Side

variable {maxData window : ℕ} {fs inp out : List Frame} {s s' : Stream} {said : List Msg}
  {r : ClientHandled} {w : WorkerEvent} {f : Frame} {await : Await}

namespace Side

variable {σ : Type} {x : Side σ}

def live (window : ℕ) (x : Side σ) : Stream := x.stream.getD (Stream.new window)

def recv (x : Side σ) : List Frame :=
  match x.await with
  | .creditGate i payload => [.data i payload]
  | _ => []

structure Listens [StreamState σ] [Party σ] (x : Side σ) : Prop where
  hears : x.known = true → x.mode.hears = true
  unclosed : ∀ s, x.stream = some s → s.remoteClosed = false

def Heeds [StreamState σ] [Party σ] (x : Side σ) : Prop := x.known = true → x.mode.hears = true

/- The receive gate turns no DATA away. -/
def Fits (id : ℕ) (x : Side σ) : Prop :=
  ∀ payload s, x.ended = false → x.await = .creditGate id payload → x.stream = some s →
    s.receiveGateFree = true → ∃ s', s.pushInbound payload = .ok s'

theorem live_some (hs : x.stream = some s) : x.live window = s := by
  rw [live, hs]
  rfl

theorem live_none (hs : x.stream = none) : x.live window = Stream.new window := by
  rw [live, hs]
  rfl

theorem live_congr {x' : Side σ} (hs : x'.stream = x.stream) : x'.live window = x.live window := by
  rw [live, live, hs]

theorem recv_nil (h : ∀ i payload, x.await ≠ .creditGate i payload) : x.recv = [] := by
  cases ha : x.await with
  | creditGate i payload => exact absurd ha (h i payload)
  | _ => simp only [recv, ha]

theorem recv_idle (h : x.await = .idle) : x.recv = [] := by
  rw [recv, h]

end Side

/- What the ends check of a frame's contents, whatever the state of its stream. -/
def Frame.fair (maxData : ℕ) : Frame → Bool
  | .data _ payload => decide (payload.length ≤ maxData)
  | .windowUpdate _ credit => decide (0 < credit)
  | .resolveOk _ addresses => !addresses.isEmpty
  | .hello _ => false
  | _ => true

/- Frames that pass those checks and move nothing. -/
def Meek (maxData : ℕ) (fs : List Frame) : Prop :=
  ∀ f ∈ fs, f.flows = false ∧ f.fair maxData = true

theorem Meek.nil (maxData : ℕ) : Meek maxData [] := fun _ hf => by cases hf

theorem Meek.single (h : f.flows = false) (hf : f.fair maxData = true) : Meek maxData [f] := by
  intro g hg
  rw [mem_singleton.mp hg]
  exact ⟨h, hf⟩

theorem Meek.still (h : Meek maxData fs) : Still fs :=
  fun f hf => (h f hf).1

theorem Meek.fair (h : Meek maxData fs) :
    ∀ f ∈ fs, f.fair maxData = true := fun f hf => (h f hf).2

theorem Stream.Commit.fair {id : ℕ} {new : List Frame} {q sh : Bool}
    (h : Stream.Commit maxData id s new q sh) : ∀ f ∈ new, f.fair maxData = true := by
  cases h <;> simp_all [Frame.fair]

/-- A move of a side that hears the frames `inp` and commits the frames `new`. -/
def Settles {σ : Type} [StreamState σ] [Party σ] (limits : NegotiatedLimits) (x x' : Side σ)
    (inp new : List Frame) : Prop :=
  (∃ used, x.recv ++ inp = used ++ x'.recv ∧
    Account x.Listens x'.Listens (x.live limits.receiveWindow) (x'.live limits.receiveWindow)
      used new) ∧
  ∀ f ∈ new, f.fair limits.maxData = true

section Common

variable {σ : Type} {limits : NegotiatedLimits} {id : ℕ} {x x' : Side σ}
  {inp out new : List Frame}

theorem Side.committed (hidle : x.await = .idle) (ha : x'.await = await)
    (hs : x'.stream.elim [] (Stream.hand id) = x.stream.elim [] (Stream.hand id))
    (hh : [] ++ x'.hand id = x.hand id ++ new) : new = await.hand := by
  simp only [hand, hs, hidle, ha, Await.hand, nil_append, append_nil] at hh
  exact (append_cancel_left hh).symm

theorem Side.nothing_committed (hh : out ++ x'.hand id = x.hand id ++ new)
    (hle : (out ++ x'.hand id).length ≤ (x.hand id).length) : new = [] := by
  rw [hh, length_append] at hle
  exact eq_nil_of_length_eq_zero (by omega)

variable [StreamState σ] [Party σ]

theorem Side.deaf_of_closed (hs : x.stream = some s) (hr : s.remoteClosed = true) :
    ¬ x.Listens := by
  intro hl
  rw [hl.unclosed s hs] at hr
  cases hr

theorem Side.deaf_of_mode (hk : x.known = true) (hm : x.mode.hears = false) : ¬ x.Listens := by
  intro hl
  rw [hl.hears hk] at hm
  cases hm

theorem Side.Heeds.listens (hh : x.Heeds) (hs : x.stream = some s) (hr : s.remoteClosed = false) :
    x.Listens := by
  refine ⟨hh, fun t ht => ?_⟩
  cases hs.symm.trans ht
  exact hr

theorem Side.listens_opened {st : σ} (hst : x.state = some st) (ho : StreamState.opened st = true)
    (hs : x.stream = some s) (hr : s.remoteClosed = false) : x.Listens := by
  refine Heeds.listens (fun _ => ?_) hs hr
  rw [mode_opened hst ho hs]
  cases s.closeQueued <;> rfl

namespace Settles

theorem unmoved (hs : x'.stream = x.stream) (hr : x.recv = []) (hr' : x'.recv = [])
    (hl : x'.Heeds → x.Heeds)
    (hu : Still inp) (hn : Meek limits.maxData new) : Settles limits x x' inp new := by
  refine ⟨⟨inp, by rw [hr, hr', append_nil]; rfl, ?_⟩, hn.fair⟩
  rw [live_congr hs]
  exact .refl (fun h => ⟨hl h.hears, fun s => hs ▸ h.unclosed s⟩) hu hn.still

theorem idle (hs : x'.stream = x.stream) (ha : x'.await = x.await)
    (hl : x'.Heeds → x.Heeds)
    (hh : [] ++ x'.hand id = x.hand id ++ new) : Settles limits x x' [] new := by
  have hnew : new = [] := nothing_committed hh (by simp [hand, hs, ha])
  subst hnew
  refine ⟨⟨[], by simp only [recv, ha, append_nil, nil_append], ?_⟩, by simp⟩
  rw [live_congr hs]
  exact .refl (fun h => ⟨hl h.hears, fun s => hs ▸ h.unclosed s⟩) .nil .nil

theorem answer {st : Option σ} {known : Bool} (hidle : x.await = .idle)
    (hleft : x'.Left st x.stream await known) (hl : x'.Heeds → x.Heeds)
    (hh : [] ++ x'.hand id = x.hand id ++ new) (hu : Still inp)
    (hn : Meek limits.maxData await.hand)
    (hno : ∀ i payload, await ≠ .creditGate i payload := by simp) : Settles limits x x' inp new := by
  have hnew : new = await.hand := committed hidle hleft.await (by rw [hleft.stream]) hh
  rw [hnew]
  exact .unmoved hleft.stream (recv_idle hidle) (recv_nil (by rw [hleft.await]; exact hno))
    hl hu hn

/- The end of an open stream, with which its driver goes on to the gate. -/
theorem closed (hx : x.Sound limits id) (hidle : x.await = .idle) {st : σ} (hst : x.state = some st)
    (ho : StreamState.opened st = true) (failure : Stream → Option StreamFailure) {i : ℕ}
    {reason : CloseReason} (hs' : x'.stream = x.stream.map fun s => s.shut (failure s))
    (ha : x'.await = .closeGate i reason) (hh : [] ++ x'.hand id = x.hand id ++ new)
    (hu : Still inp) : Settles limits x x' inp new := by
  obtain ⟨s, hs, -⟩ := hx.opened st hst ho
  rw [hs, Option.map_some] at hs'
  have hnew : new = [] := committed hidle ha (by rw [hs', hs]; rfl) hh
  rw [hnew]
  refine ⟨⟨inp, ?_, ?_⟩, by simp⟩
  · rw [recv_idle hidle, recv_nil (by simp [ha]), append_nil]
    rfl
  · rw [live_some hs, live_some hs']
    exact .ended _ (deaf_of_closed hs' rfl) hu .nil

theorem same (hs : x.stream = some s) (hs' : x'.stream = some s') (hr : x.recv = [])
    (hr' : x'.recv = [])
    (hl : x'.Heeds → x.Heeds)
    (he : s' = { s with
      closeQueued := s'.closeQueued
      driverGate := s'.driverGate
      aborted := s'.aborted }) (hu : Still inp) (hn : Meek limits.maxData new) :
    Settles limits x x' inp new := by
  refine ⟨⟨inp, by rw [hr, hr', append_nil]; rfl, ?_⟩, hn.fair⟩
  rw [live_some hs, live_some hs']
  have hremote : s'.remoteClosed = s.remoteClosed := by rw [he]
  refine .same ?_ ?_ ?_ ?_ ?_ ?_ (fun _ => ?_) ?_ ?_ hu hn.still
  · rw [he]
  · rw [he]
  · rw [he]
    rfl
  · rw [he]
  · rw [he]
  · rw [he]
  · rw [he]
  · intro ha
    rw [he] at ha
    exact ha
  · intro h
    exact Heeds.listens (hl h.hears) hs (hremote.symm.trans (h.unclosed s' hs'))

theorem aborted (hidle : x.await = .idle) (hs : x.stream = some s)
    (hs' : x'.stream = some { s with aborted := true }) (ha : x'.await = x.await)
    (hl : x'.Heeds → x.Heeds)
    (hh : [] ++ x'.hand id = x.hand id ++ new) : Settles limits x x' [] new := by
  have hnew : new = [] := committed hidle (ha.trans hidle) (by rw [hs', hs]; rfl) hh
  rw [hnew]
  exact .same hs hs' (recv_idle hidle) (recv_nil (by simp [ha, hidle])) hl rfl
    .nil (.nil _)

theorem heard (hidle : x.await = .idle) (hidle' : x'.await = .idle) (hs : x.stream = some s)
    (hs' : x'.stream = some s') (hhand : s'.hand id = s.hand id)
    (hh : [] ++ x'.hand id = x.hand id ++ new) (ha : Account x.Listens x'.Listens s s' inp []) :
    Settles limits x x' inp new := by
  have hnew : new = [] := committed hidle hidle' (by rw [hs', hs]; exact hhand) hh
  subst hnew
  refine ⟨⟨inp, by rw [recv_idle hidle, recv_idle hidle', append_nil, nil_append], ?_⟩, by simp⟩
  rw [live_some hs, live_some hs']
  exact ha

/- An unused stream takes the place of none. -/
theorem spawned (hs : x.stream = none) (hs' : x'.stream = some s)
    (he : s = Stream.new limits.receiveWindow ∨ s = (Stream.new limits.receiveWindow).dropLocal)
    (hr : x.recv = []) (hr' : x'.recv = []) (hl : x'.Heeds → x.Heeds) (hu : Still inp) :
    Settles limits x x' inp [] := by
  refine ⟨⟨inp, by rw [hr, hr', append_nil, nil_append], ?_⟩, by simp⟩
  rw [live_none hs, live_some hs']
  have hlisten : x'.Listens → x.Listens := by
    intro h
    refine ⟨hl h.hears, fun t ht => ?_⟩
    rw [hs] at ht
    cases ht
  rcases he with rfl | rfl
  · exact .refl hlisten hu .nil
  · exact .same rfl rfl rfl rfl rfl rfl (fun _ => rfl) (fun _ => rfl) hlisten hu .nil

end Settles

theorem Side.Sound.listens (hx : x.Sound limits id) (hrun : x.ended = false) {st : σ}
    (hst : x.state = some st) (ho : StreamState.opened st = true) :
    ∃ s, x.stream = some s ∧ s.remoteClosed = false ∧ x.Listens := by
  obtain ⟨s, hs, hclosed⟩ := hx.opened st hst ho
  exact ⟨s, hs, hclosed hrun, listens_opened hst ho hs (hclosed hrun)⟩

theorem SideMove.settles (hx : x.Sound limits id) (hp : x.Poised id)
    (h : SideMove limits.maxData id x x' out) (hh : out ++ x'.hand id = x.hand id ++ new)
    (hown : OwnStep x.mode x'.mode said) (hk : x'.known = x.known)
    (hpush : x.Fits id) : Settles limits x x' [] new := by
  have hl : x'.Heeds → x.Heeds := by
    intro hm hkn
    exact hown.hears (hm (hk.trans hkn))
  cases h with
  | skip | stop => exact .idle rfl rfl hl hh
  | act a hs hrun hstep =>
    rename_i s s' eff
    have hsound := hx.stream s hs
    obtain ⟨made, hm⟩ := hsound.step_moved (hx.retired_of hs hrun) hstep
    have hmade : new = made := by
      simp only [hand, hs, Option.elim_some] at hh
      rw [← append_assoc, hm.hand, append_assoc, append_assoc] at hh
      have hrest := append_cancel_left hh
      rcases hx.hand_or_committed hp hs hm.commit with hnone | hnone <;> rw [hnone] at hrest
      · simpa using hrest.symm
      · simpa [hnone] using hrest
    subst hmade
    refine ⟨⟨[], by simp [recv], ?_⟩, hm.commit.fair⟩
    rw [live_some hs, live_some rfl]
    refine .moved hm fun h => Heeds.listens (hl h.hears) hs ?_
    rw [← hm.remote]
    exact h.unclosed s' rfl
  | sent hrun ha =>
    have hnew : new = [] := nothing_committed hh (by simp [hand, ha, Await.hand])
    subst hnew
    exact .unmoved rfl (recv_nil (by simp [ha])) rfl hl .nil (.nil _)
  | closeFound hrun ha hs | closeSent hrun ha hs =>
    have hnew : new = [] :=
      nothing_committed hh (by simp [hand, hs, ha, Await.hand, Stream.hand, Nat.add_assoc])
    subst hnew
    exact .same hs rfl (recv_nil (by simp [ha])) rfl hl rfl .nil (.nil _)
  | closeTaken hrun ha hs hg hq =>
    rename_i reason
    have hnew : [.close id reason] = new := by
      simpa [hand, hs, ha, Await.hand, Stream.hand] using hh
    subst hnew
    exact .same hs rfl (recv_nil (by simp [ha])) rfl hl rfl .nil (.single rfl rfl)

  | pushed hrun ha hs hg hp =>
    rename_i payload
    obtain ⟨-, -, -, he⟩ := Stream.pushInbound_ok hp
    have hnew : new = [] := nothing_committed hh
      (by simp [hand, hs, ha, he, Await.hand, Stream.hand])
    subst hnew
    refine ⟨⟨[.data id payload], by simp [recv, ha], ?_⟩, by simp⟩
    rw [live_some hs, live_some rfl]
    obtain ⟨-, st, hst, ho⟩ := hx.credit _ _ ha
    obtain ⟨-, -, -, hlisten⟩ := hx.listens hrun hst ho
    exact .pushed id hp hlisten fun _ => hlisten
  | refused hrun ha hs hg hp =>
    obtain ⟨s', hok⟩ := hpush _ _ hrun ha hs hg
    rw [hp] at hok
    cases hok
  | torn hend hs =>
    rename_i s error
    have hnew : new = [] := nothing_committed hh
      (by simp [hand, hs, Stream.hand, Stream.sessionFailure, Stream.shut])
    subst hnew
    refine ⟨⟨[], by simp [recv], ?_⟩, by simp⟩
    rw [live_some hs, live_some rfl]
    have hdeaf : ¬ Side.Listens
        { x with stream := some { s.sessionFailure error with aborted := true } } :=
      deaf_of_closed rfl rfl
    exact .same rfl rfl rfl rfl rfl rfl (fun h => absurd h hdeaf)
      (by simp [Stream.alive, Stream.sessionFailure, Stream.shut]) (fun h => absurd h hdeaf) .nil .nil

theorem FlowCase.settles (hx : x.Sound limits id) (hrun : x.ended = false)
    (hidle : x.await = .idle) {standing : Standing}
    (htakes : standing = .takes → ∃ st, x.state = some st ∧
      StreamState.opened st = true)
    (hignores : standing = .ignores → x.known = true ∧ x'.mode.hears = false) {s : Option Stream}
    (hc : FlowCase limits standing x.stream f s await) (hl : x'.Left x.state s await x.known)
    (hh : [] ++ x'.hand id = x.hand id ++ new) : Settles limits x x' [f] new := by
  have hr : x.recv = [] := recv_idle hidle
  have hopen : standing = .takes → x.Listens := by
    intro ht
    obtain ⟨st, hst, ho⟩ := htakes ht
    obtain ⟨-, -, -, hlisten⟩ := hx.listens hrun hst ho
    exact hlisten
  cases hc with
  | ignored hst =>
    obtain ⟨hk, hm⟩ := hignores hst
    have hnew : new = [] := committed hidle hl.await (by rw [hl.stream]) hh
    subst hnew
    have hr' : x'.recv = [] := recv_idle hl.await
    refine ⟨⟨[f], by rw [hr, hr']; rfl, ?_⟩, by simp⟩
    rw [live_congr hl.stream]
    exact .deaf (deaf_of_mode (hl.known.trans hk) hm) .nil
  | data ht hle =>
    rename_i i payload
    have hnew : new = [] := committed hidle hl.await (by rw [hl.stream]) hh
    subst hnew
    have hr' : x'.recv = [.data i payload] := by simp only [recv, hl.await]
    refine ⟨⟨[], by rw [hr, hr'], ?_⟩, by simp⟩
    rw [live_congr hl.stream]
    exact .refl (fun _ => hopen ht) .nil .nil
  | shutdown ht hs hf =>
    rename_i i t t'
    obtain ⟨-, he⟩ := Stream.finishInbound_ok hf
    exact .heard hidle hl.await hs hl.stream (by rw [he]; rfl) hh (.finished i hf fun _ => hopen ht)
  | credit ht hs hc =>
    rename_i i credit t t'
    have he := Stream.addCredit_ok hc
    exact .heard hidle hl.await hs hl.stream (by rw [he]; rfl) hh (.credited i hc fun _ => hopen ht)
  | missing ht hs =>
    obtain ⟨st, hst, ho⟩ := htakes ht
    obtain ⟨t, hsome, -⟩ := hx.opened st hst ho
    rw [hs] at hsome
    cases hsome

theorem EventCase.settles (hx : x.Sound limits id) (hidle : x.await = .idle) {y : Entry σ}
    (hcase : EventCase w ⟨x.state, x.stream⟩ y) (hl : x'.Left y.state y.stream x.await x.known)
    (hhears : x'.Heeds → x.Heeds) (hh : [] ++ x'.hand id = x.hand id ++ new) :
    Settles limits x x' [] new := by
  cases hcase with
  | ignored => exact .idle hl.stream hl.await hhears hh
  | retired hst ho =>
    obtain ⟨s, hs, -⟩ := hx.opened _ hst ho
    have hs' : x'.stream = some { s with aborted := true } := by rw [hl.stream, hs]; rfl
    exact .aborted hidle hs hs' hl.await hhears hh

end Common

section Client

variable {limits : NegotiatedLimits} {id : ℕ} {x x' : Side ClientStreamState} {new : List Frame}

theorem CommandCase.settles (hx : x.Sound limits id) (hidle : x.await = .idle)
    {cmd : ClientCommand} {full known : Bool} (hr : CommandCase full ⟨x.state, x.stream⟩ r cmd)
    (hl : x'.Left r.entry.state r.entry.stream r.await known)
    (hhears : x'.Heeds → x.Heeds)
    (hh : [] ++ x'.hand id = x.hand id ++ new) : Settles limits x x' [] new := by
  cases hr with
  | closeOpened hst =>
    exact .closed hx hidle hst rfl (fun _ => _) hl.stream hl.await hh .nil
  | keep =>
    exact .answer hidle hl hhears hh .nil (.nil _)
  | resolve hst | openTo hst hmem | openIp hst | closeEarly permit hst hearly =>
    exact .answer hidle hl hhears hh .nil (.single rfl rfl)

theorem ClientFrameCase.settles {alive : Bool} (hx : x.Sound limits id) (hrun : x.ended = false)
    (hidle : x.await = .idle) (hr : ClientFrameCase limits alive ⟨x.state, x.stream⟩ r f)
    (hl : x'.Left r.entry.state r.entry.stream r.await x.known)
    (hhears : x'.Heeds → x.Heeds)
    (hh : [] ++ x'.hand id = x.hand id ++ new) : Settles limits x x' [f] new := by
  cases hr with
  | flow hc =>
    refine FlowCase.settles hx hrun hidle ClientStreamState.takes_opened (fun hst => ?_) hc hl hh
    obtain ⟨permit, hcl⟩ := ClientStreamState.ignores_closing hst
    exact ⟨hx.known_of_state hcl, by rw [mode_some (hl.state.trans hcl)]; rfl⟩
  | late hcl hf =>
    refine .answer hidle hl hhears hh (.single ?_) (.nil _)
    cases f <;> rcases hf with hf | hf | hf <;> first | rfl | cases hf
  | opened hst =>
    have hs := hx.early _ hst rfl
    have hnew : new = [] := by
      refine committed hidle hl.await ?_ hh
      rw [hl.stream, hs]
      cases alive <;> rfl
    rw [hnew]
    refine .spawned hs hl.stream ?_ (recv_idle hidle) (recv_idle hl.await) hhears (.single rfl)
    cases alive
    · exact .inr rfl
    · exact .inl rfl
  | closeOpened hst =>
    exact .closed hx hidle hst rfl (fun _ => _) hl.stream hl.await hh (.single rfl)
  | resolved hst hnil | emptied hst he | resolveFailed hst | openFailed hst
  | closeLast hst =>
    exact .answer hidle hl hhears hh (.single rfl) (.nil _)
  | abandoned hst hnil | closeEarly hst hearly =>
    exact .answer hidle hl hhears hh (.single rfl) (.single rfl rfl)

theorem ClientMove.settles (hx : x.Sound limits id) (hp : x.Poised id)
    (h : ClientMove limits id x x' inp out) (hh : out ++ x'.hand id = x.hand id ++ new)
    (hstep : ClientStep x.mode x.known (inp.map Frame.sign) x'.mode x'.known said)
    (hok : ∀ f ∈ inp, ∀ alive, ∃ r, handleClientFrame limits alive ⟨x.state, x.stream⟩ f = .ok r)
    (hpush : x.Fits id) : Settles limits x x' inp new := by
  have hhears := fun hm hk => hstep.hears hm hk
  cases h with
  | side h =>
    obtain ⟨_, _, _, hown, hk⟩ := h.speaks hx hp
    exact h.settles hx hp hh hown hk hpush
  | pass | commandError => exact .idle rfl rfl hhears hh
  | command hid hrun hidle hnew h =>
    exact CommandCase.settles hx hidle (handleClientCommand_case h) ⟨rfl, rfl, rfl, rfl⟩ hhears hh
  | frame hf hrun hidle h =>
    exact ClientFrameCase.settles hx hrun hidle (handleClientFrame_case h) ⟨rfl, rfl, rfl, rfl⟩
      hhears hh
  | frameError hf hrun hidle h =>
    obtain ⟨r, hr⟩ := hok _ (mem_singleton_self _) _
    rw [h] at hr
    cases hr
  | event hrun hidle hw =>
    exact (clientWorkerEvent_case _ _).settles hx hidle ⟨rfl, rfl, rfl, rfl⟩ hhears hh

end Client

section Agent

variable {limits : NegotiatedLimits} {policy : AgentPolicy} {id : ℕ}
  {x x' : Side AgentStreamState} {new : List Frame}

theorem AgentFrameCase.settles (hx : x.Sound limits id) (hrun : x.ended = false)
    (hidle : x.await = .idle) {v : AgentView} (hv : v.limits = limits) {r : AgentHandled}
    (hr : AgentFrameCase v ⟨x.state, x.stream⟩ r f) (hk : x.known = id.ble v.highest)
    (hl : x'.Left r.entry.state r.entry.stream r.await (id.ble r.highest))
    (hhears : x'.Heeds → x.Heeds)
    (hh : [] ++ x'.hand id = x.hand id ++ new) : Settles limits x x' [f] new := by
  cases hr with
  | flow hc =>
    rw [← hk] at hl
    rw [hv] at hc
    refine FlowCase.settles hx hrun hidle AgentStreamState.takes_opened (fun hst => ?_) hc hl hh
    have hcl := AgentStreamState.ignores_closing hst
    exact ⟨hx.known_of_state hcl, by rw [mode_some (hl.state.trans hcl)]; rfl⟩
  | closeOpened hst =>
    exact .closed hx hidle hst rfl (fun _ => _) hl.stream hl.await hh (.single rfl)
  | refusedNew code diagnostic hf hst hhigh =>
    refine .answer hidle hl hhears hh (.single ?_) (.single rfl rfl)
    rcases hf with ⟨port, hostname, rfl⟩ | ⟨address, rfl⟩ <;> rfl
  | resolve hst hhigh | connectNew hst hhigh | connect hst | closeLast hst
  | closeCancelled hst =>
    exact .answer hidle hl hhears hh (.single rfl) (.nil _)
  | refused code diagnostic hst | closeStale hst hold | cancel hst | closeResolved hst =>
    exact .answer hidle hl hhears hh (.single rfl) (.single rfl rfl)

theorem FinishCase.settles (hidle : x.await = .idle) {done : AgentOperation}
    {y : Entry AgentStreamState} (hr : FinishCase ⟨x.state, x.stream⟩ y await done)
    (hl : x'.Left y.state y.stream await x.known)
    (hhears : x'.Heeds → x.Heeds)
    (hh : [] ++ x'.hand id = x.hand id ++ new) : Settles limits x x' [] new := by
  cases hr with
  | gone hst =>
    exact .answer hidle hl hhears hh .nil (.nil _)
  | resolved hst hne =>
    exact .answer hidle hl hhears hh .nil
      (.single rfl (by simpa [Frame.fair] using hne))
  | unresolved code diagnostic hst | opened bound hst
  | unopened code diagnostic hst =>
    exact .answer hidle hl hhears hh .nil (.single rfl rfl)

theorem AgentMove.settles (hx : x.Sound limits id) (hp : x.Poised id) {ops ops' : List Operation}
    (h : AgentMove limits policy id x ops x' ops' inp out)
    (hh : out ++ x'.hand id = x.hand id ++ new)
    (hhears : x'.Heeds → x.Heeds)
    (hok : ∀ f ∈ inp, ∀ v : AgentView, v.limits = limits → x.known = id.ble v.highest →
      ∃ r, handleAgentFrame v ⟨x.state, x.stream⟩ f = .ok r)
    (hpush : x.Fits id) : Settles limits x x' inp new := by
  cases h with
  | side h =>
    obtain ⟨_, _, _, hown, hk⟩ := h.speaks hx hp
    exact h.settles hx hp hh hown hk hpush
  | pass | finishError => exact .idle rfl rfl hhears hh
  | frame hv hk hf hrun hidle h =>
    exact AgentFrameCase.settles hx hrun hidle hv (handleAgentFrame_case h) hk
      ⟨rfl, rfl, rfl, rfl⟩ hhears hh
  | frameError hv hk hf hrun hidle h =>
    obtain ⟨r, hr⟩ := hok _ (mem_singleton_self _) _ hv hk
    rw [h] at hr
    cases hr
  | event hrun hidle hw =>
    exact (agentWorkerEvent_case _ _).settles hx hidle ⟨rfl, rfl, rfl, rfl⟩ hhears hh
  | finish hop hid hrun hidle hd h =>
    exact FinishCase.settles hidle (finishAgentOperation_case h) ⟨rfl, rfl, rfl, rfl⟩ hhears hh
  | resolved hrun ha =>
    have hnew : new = [] := nothing_committed hh (by simp [hand, ha, Await.hand])
    rw [hnew]
    exact .unmoved rfl (recv_nil (by simp [ha])) rfl hhears .nil (.nil _)
  | opened hrun ha =>
    obtain ⟨-, hs, hhand, -⟩ := hx.announced ha (by simp [Next.inserts])
    have hnew : new = [] := nothing_committed hh (by rw [hhand]; exact Nat.le_refl _)
    rw [hnew]
    exact .spawned hs rfl (.inl rfl) (recv_nil (by simp [ha])) rfl hhears .nil

end Agent

end Alighieri.Rdp
