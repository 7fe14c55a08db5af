import Alighieri.Rdp.Grammar
import Alighieri.Rdp.Dialogue

/-!
# What a side says of its stream

A frame counts as said from the moment a task has it in hand. A driver that waits for the gate to
send CLOSE owes one: from then on nothing but that CLOSE is said, by the driver or by the worker
that is faster.
-/

namespace Alighieri.Rdp
open Net Dialogue List Option Side

variable {maxData : ℕ} {new out : List Frame} {alive : Bool} {await : Await} {s s' : Stream}
  {f : Frame} {events : List WorkerEvent} {r : ClientHandled}

def Frame.sign : Frame → Msg
  | .resolve _ _ _ => .resolve
  | .openTo _ _ => .openTo
  | .resolveOk _ _ => .resolveOk
  | .openOk _ _ => .openOk
  | .openError _ _ _ => .openError
  | .close _ _ => .close
  | _ => .flow

/- How the states of an end are read; the Booleans say that its CLOSE has been committed
and that a stream has been spawned. -/
class Party (σ : Type) [StreamState σ] where
  mode : Bool → Bool → σ → Mode
  opened : ∀ closed spawned st, StreamState.opened st = true →
    mode closed spawned st = bif closed then .leaving else .opened
  other : ∀ closed closed' spawned st, StreamState.opened st = false →
    mode closed spawned st = mode closed' spawned st
  closing : ∀ closed st, StreamState.opened st = false → StreamState.early st = false →
    mode closed true st = .closing true

instance : Party ClientStreamState where
  mode closed spawned
    | .resolving _ => .resolving
    | .resolved _ => .resolved
    | .opening candidates _ => .opening candidates.isSome
    | .opened _ => bif closed then .leaving else .opened
    | .closing _ => .closing spawned
  opened := by
    intro closed spawned st h
    cases st <;> first | rfl | cases h
  other := by
    intro closed closed' spawned st h
    cases st <;> first | rfl | cases h
  closing := by
    intro closed st ho he
    cases st <;> first | rfl | (cases he; done) | cases ho

instance : Party AgentStreamState where
  mode closed spawned
    | .resolving => .resolving
    | .resolved _ => .resolved
    | .opening candidates => .opening candidates.isSome
    | .opened => bif closed then .leaving else .opened
    | .cancelled => .cancelled
    | .closing => .closing spawned
  opened := by
    intro closed spawned st h
    cases st <;> first | rfl | cases h
  other := by
    intro closed closed' spawned st h
    cases st <;> first | rfl | cases h
  closing := by
    intro closed st ho he
    cases st <;> first | rfl | (cases he; done) | cases ho

/- A stream whose RESOLVE_OK or OPEN_OK waits for room is as good as inserted. -/
def Next.mode : Next → Mode
  | .resolved _ _ => .resolved
  | .opened _ => .opened
  | _ => .idle

namespace Side

variable {σ : Type}

def mode [StreamState σ] [Party σ] (x : Side σ) : Mode :=
  match x.state with
  | some st => Party.mode (x.stream.any (·.closeQueued)) x.stream.isSome st
  | none => x.await.next.mode

def hand (id : ℕ) (x : Side σ) : List Frame := x.stream.elim [] (Stream.hand id) ++ x.await.hand

def owes (x : Side σ) : List Msg :=
  match x.await with
  | .closeGate _ _ => bif x.stream.all (·.closeQueued) then [] else [.close]
  | _ => []

theorem owes_nil {x : Side σ} (h : ∀ i reason, x.await ≠ .closeGate i reason) : x.owes = [] := by
  cases ha : x.await with
  | closeGate i reason => exact absurd ha (h i reason)
  | _ => simp only [owes, ha]

end Side

structure Side.Left {σ : Type} (x : Side σ) (st : Option σ) (s : Option Stream) (await : Await)
    (known : Bool) : Prop where
  state : x.state = st
  stream : x.stream = s
  await : x.await = await
  known : x.known = known

/-- A move puts the frames `out` on the queue; `new` is what it commits, and `said` what it
says, a CLOSE that was owed before counting as said then. -/
structure Said {σ : Type} (id : ℕ) (x x' : Side σ) (out new : List Frame) (said : List Msg) :
    Prop where
  hand : out ++ x'.hand id = x.hand id ++ new
  words : new.map Frame.sign ++ x'.owes = x.owes ++ said

namespace Said

variable {σ : Type} {id : ℕ} {x x' : Side σ}

theorem nothing (hh : x'.hand id = x.hand id) (ho : x'.owes = x.owes) : Said id x x' [] [] [] :=
  ⟨by rw [hh, nil_append, append_nil], by rw [ho, append_nil]; rfl⟩

theorem answer (hidle : x.await = .idle) (hs : x'.stream = x.stream) (ha : x'.await = await)
    (hg : ∀ i reason, await ≠ .closeGate i reason) :
    Said id x x' [] await.hand (await.hand.map Frame.sign) := by
  have ho : x'.owes = [] := owes_nil fun i reason => by rw [ha]; exact hg i reason
  have hnow : x.owes = [] := owes_nil fun i reason => by rw [hidle]; simp
  constructor
  · simp [Side.hand, hs, hidle, ha, Await.hand]
  · rw [ho, hnow, append_nil, nil_append]

theorem quiet (hidle : x.await = .idle) (hs : x.stream = some s) (hs' : x'.stream = some s')
    (hh : s'.hand id = s.hand id) (ha : x'.await.hand = [])
    (hg : ∀ i reason, x'.await ≠ .closeGate i reason) : Said id x x' [] [] [] := by
  have ho : x'.owes = [] := owes_nil hg
  have hnow : x.owes = [] := owes_nil fun i reason => by rw [hidle]; simp
  refine .nothing ?_ (ho.trans hnow.symm)
  simp only [Side.hand, hs, hs', hh, ha, hidle, elim_some]
  rfl

theorem gate {i : ℕ} {reason : CloseReason} (hidle : x.await = .idle) (hs : x.stream = some s)
    (hs' : x'.stream = some s') (hh : s'.hand id = s.hand id)
    (ha : x'.await = .closeGate i reason) :
    Said id x x' [] [] (bif s'.closeQueued then [] else [.close]) := by
  constructor
  · simp [Side.hand, hs, hs', hh, ha, hidle, Await.hand]
  · simp [Side.owes, hs', ha, hidle]

end Said

def Side.Speaks {σ : Type} (id : ℕ) (x x' : Side σ) (out : List Frame)
    (step : List Msg → Prop) : Prop :=
  ∃ new said, Said id x x' out new said ∧ step said

theorem Side.Speaks.answer {σ : Type} {id : ℕ} {x x' : Side σ} {step : List Msg → Prop}
    {st : Option σ} {known : Bool} (hidle : x.await = .idle)
    (hl : x'.Left st x.stream await known) (h : step (await.hand.map Frame.sign))
    (hg : ∀ i reason, await ≠ .closeGate i reason := by simp) : Speaks id x x' [] step :=
  ⟨_, _, .answer hidle hl.stream hl.await hg, h⟩

theorem Side.Speaks.imp {σ : Type} {id : ℕ} {x x' : Side σ} {out : List Frame}
    {p q : List Msg → Prop} (h : Speaks id x x' out p) (hpq : ∀ said, p said → q said) :
    Speaks id x x' out q := by
  obtain ⟨new, said, hsaid, hp⟩ := h
  exact ⟨new, said, hsaid, hpq said hp⟩

theorem Stream.step_call {id : ℕ} {a : StreamAct} {eff : Effect} (ha : a.isWorker = false)
    (h : s.step maxData id a = some (s', eff)) :
    s'.hand id = s.hand id ∧ s'.closeQueued = s.closeQueued ∧ eff.frames = [] := by
  have hcase := Stream.step_cases h
  cases hcase with
  | call hm => cases hm <;> exact ⟨rfl, rfl, rfl⟩
  | _ => cases ha

section Common

variable {σ : Type} [StreamState σ] {limits : NegotiatedLimits} {id : ℕ} {x x' : Side σ}

theorem Side.Sound.hand_sending (hp : x.Poised id) (hx : x.Sound limits id) {next : Next}
    (ha : x.await = .ordered f next) : x.hand id = [f] := by
  cases hs : x.stream with
  | none => simp [hand, hs, ha, Await.hand]
  | some s =>
    have hnone := (hp.sending f next s ha hs).hand (hx.stream s hs) id
    simp [hand, hs, ha, hnone, Await.hand]

theorem Side.Sound.not_opened (hx : x.Sound limits id) (hrun : x.ended = false)
    (hs : x.stream = some s) (hr : s.remoteClosed = true) (st : σ) (hst : x.state = some st) :
    StreamState.opened st = false := by
  by_contra ho
  rw [(hx.held hs).opened st hst (by simpa using ho) hrun] at hr
  cases hr

/- While the driver has a frame in hand the CLOSE has been committed. -/
theorem Side.Sound.hand_or_committed (hx : x.Sound limits id) (hp : x.Poised id)
    (hs : x.stream = some s)
    (hc : Stream.Commit limits.maxData id s new s'.closeQueued s'.hasShut) :
    x.await.hand = [] ∨ new = [] := by
  have hsound := hx.stream s hs
  cases ha : x.await with
  | ordered f next =>
    exact .inr (Stream.Commit.nil_of_closed hsound (hp.sending f next s ha hs).1 hc)
  | closeSend i reason =>
    have hdg := ((hx.held hs).send i reason ha).2
    exact .inr (Stream.Commit.nil_of_closed hsound (hsound.driver_gate hdg).2.1 hc)
  | _ => exact .inl rfl

theorem Side.Sound.no_gate (hx : x.Sound limits id) (hs : x.stream = some s)
    (hr : s.remoteClosed = false) (i : ℕ) (reason : CloseReason) :
    x.await ≠ .closeGate i reason := by
  intro ha
  have hclosed := ((hx.held hs).gate i reason ha).2
  rw [hr] at hclosed
  cases hclosed

variable [Party σ]

theorem Side.mode_none (hst : x.state = none) (hn : x.await.next = .done) : x.mode = .idle := by
  simp only [mode, hst, hn, Next.mode]

theorem Side.Left.idle {s : Option Stream} {known : Bool} (hl : x'.Left none s await known)
    (hn : await.next = .done) : x'.mode = .idle := mode_none hl.state (by rw [hl.await]; exact hn)

theorem Side.mode_some {st : σ} (hst : x.state = some st) :
    x.mode = Party.mode (x.stream.any (·.closeQueued)) x.stream.isSome st := by
  simp only [mode, hst]

theorem Side.mode_opened {st : σ} (hst : x.state = some st) (ho : StreamState.opened st = true)
    (hs : x.stream = some s) : x.mode = bif s.closeQueued then .leaving else .opened := by
  rw [mode_some hst, Party.opened _ _ st ho, hs]
  rfl

theorem Side.mode_stream (hs : x.stream = some s) (hn : await.next.mode = x.await.next.mode)
    (h : s'.closeQueued = s.closeQueued ∨
      ∀ st, x.state = some st → StreamState.opened st = false) :
    mode { x with stream := some s', await := await, events := events } = x.mode := by
  cases hst : x.state with
  | none => simp only [mode, hst, hn]
  | some st =>
    simp only [mode, hst, hs, any_some, isSome_some]
    rcases h with hq | hno
    · rw [hq]
    · exact Party.other _ _ _ st (hno st hst)

theorem Side.stays (hs : x.stream = some s) (hn : await.next.mode = x.await.next.mode)
    (h : s'.closeQueued = s.closeQueued ∨
      ∀ st, x.state = some st → StreamState.opened st = false) :
    OwnStep x.mode (mode { x with stream := some s', await := await, events := events }) [] := by
  rw [mode_stream hs hn h]
  exact .stay _

/- A stream that has not committed its CLOSE is open, or its driver waits for the gate. -/
theorem Side.Sound.open_or_gated {τ : Type} [StreamState τ] {x : Side τ} (hx : x.Sound limits id)
    (hp : x.Poised id) (hs : x.stream = some s) (hq : s.closeQueued = false) :
    (∃ reason, x.await = .closeGate id reason) ∨ ∃ st, x.state = some st ∧ StreamState.opened st = true := by
  by_contra hno
  push Not at hno
  rcases hp.ceased s hs (fun st hst => by simpa using hno.2 st hst) with ho | ⟨r, ha⟩ | ⟨r, ha⟩
  · rw [ho.1] at hq
    cases hq
  · exact hno.1 r ha
  · have hd := ((hx.held hs).send _ _ ha).2
    rw [((hx.stream s hs).driver_gate hd).2.1] at hq
    cases hq

theorem Side.commits_opened {st : σ} {f : Frame} (hst : x.state = some st)
    (ho : StreamState.opened st = true) (hs : x.stream = some s) (hq : s.closeQueued = false)
    (hgate : ∀ i reason, x.await ≠ .closeGate i reason)
    (hstep : OwnStep .opened (bif s'.closeQueued then .leaving else .opened) [f.sign]) :
    ∃ said, [f].map Frame.sign ++ owes { x with stream := some s', events := events } =
        x.owes ++ said ∧
      OwnStep x.mode (mode { x with stream := some s', events := events }) said := by
  have hthen : owes { x with stream := some s', events := events } = [] := owes_nil hgate
  have hst' : ({ x with stream := some s', events := events } : Side σ).state = some st := hst
  refine ⟨[f.sign], by rw [owes_nil hgate, hthen]; rfl, ?_⟩
  rw [mode_opened hst ho hs, mode_opened hst' ho rfl, hq]
  exact hstep

/- A worker commits a frame of an open stream, or the CLOSE its driver owes. -/
theorem Side.Sound.commits (hx : x.Sound limits id) (hp : x.Poised id) (hrun : x.ended = false)
    (hs : x.stream = some s)
    (hc : Stream.Commit limits.maxData id s new s'.closeQueued s'.hasShut) :
    ∃ said, new.map Frame.sign ++ owes { x with stream := some s', events := events } =
        x.owes ++ said ∧
      OwnStep x.mode (mode { x with stream := some s', events := events }) said := by
  have hstate := hx.open_or_gated hp hs
  generalize hq' : s'.closeQueued = q at hc
  generalize s'.hasShut = sh at hc
  cases hc with
  | nothing =>
    refine ⟨[], ?_, ?_⟩
    · rw [append_nil]
      simp only [owes, hs, all_some, hq', map_nil, nil_append]
    · exact stays hs rfl (.inl hq')
  | data payload hpay hle hl | shutdown hl | credit credit hcr hl =>
    have hq := (hx.stream s hs).open_of_alive hl
    have hgate := hx.no_gate hs (Stream.alive_iff.mp hl).2
    rcases hstate hq with ⟨reason, ha⟩ | ⟨st, hst, ho⟩
    · exact absurd ha (hgate _ _)
    · apply commits_opened hst ho hs hq hgate
      rw [hq', hq]
      exact .flow
  | close reason hd hopen =>
    rcases hstate hopen with ⟨r, ha⟩ | ⟨st, hst, ho⟩
    · -- the worker is faster than the driver
      have hclosed := ((hx.held hs).gate _ _ ha).2
      refine ⟨[], ?_, ?_⟩
      · simp [owes, ha, hs, hq', hopen, Frame.sign]
      · exact stays hs rfl (.inr (hx.not_opened hrun hs hclosed))
    · apply commits_opened hst ho hs hopen (hx.no_gate hs ((hx.held hs).opened st hst ho hrun))
      rw [hq']
      exact .leave

/- What flows to an open stream leaves it as open as it was, and a closing one ignores it. -/
theorem FlowCase.hushed (hx : x.Sound limits id) (hidle : x.await = .idle) {standing : Standing}
    (htakes : standing = .takes → ∃ st, x.state = some st ∧ StreamState.opened st = true)
    {stream : Option Stream} {l : NegotiatedLimits} (hc : FlowCase l standing x.stream f stream await)
    (hl : x'.Left x.state stream await x.known) :
    (standing = .ignores ∧ x'.Left x.state x.stream .idle x.known) ∨
      f.sign = .flow ∧ Said id x x' [] [] [] ∧ x'.mode = x.mode ∧
        (x.mode = .opened ∨ x.mode = .leaving) := by
  have htaken : standing = .takes → ∀ s s' : Stream, x.stream = some s → x'.stream = some s' →
      s'.hand id = s.hand id → s'.closeQueued = s.closeQueued → await.hand = [] →
      (∀ i reason, await ≠ .closeGate i reason) →
      Said id x x' [] [] [] ∧ x'.mode = x.mode ∧ (x.mode = .opened ∨ x.mode = .leaving) := by
    intro ht s s' hs hs' hh hq hha hg
    obtain ⟨st, hst, ho⟩ := htakes ht
    have hmode := mode_opened hst ho hs
    refine ⟨.quiet hidle hs hs' hh ?_ ?_, ?_, ?_⟩
    · rw [hl.await, hha]
    · rw [hl.await]
      exact hg
    · rw [hmode, mode_opened (hl.state.trans hst) ho hs', hq]
    · rw [hmode]
      cases s.closeQueued with
      | false => exact .inl rfl
      | true => exact .inr rfl
  cases hc with
  | ignored hst => exact .inl ⟨hst, hl⟩
  | data ht hle =>
    obtain ⟨st, hst, ho⟩ := htakes ht
    obtain ⟨s, hs, -⟩ := hx.opened st hst ho
    exact .inr ⟨rfl, htaken ht s s hs (hl.stream.trans hs) rfl rfl rfl (by simp)⟩
  | shutdown ht hs hf =>
    obtain ⟨-, rfl⟩ := Stream.finishInbound_ok hf
    exact .inr ⟨rfl, htaken ht _ _ hs hl.stream rfl rfl rfl (by simp)⟩
  | credit ht hs hc =>
    obtain rfl := Stream.addCredit_ok hc
    exact .inr ⟨rfl, htaken ht _ _ hs hl.stream rfl rfl rfl (by simp)⟩
  | missing ht hs =>
    obtain ⟨st, hst, ho⟩ := htakes ht
    obtain ⟨s, hsome, -⟩ := hx.opened st hst ho
    rw [hs] at hsome
    cases hsome

theorem EventCase.speaks (hx : x.Sound limits id) (hrun : x.ended = false)
    (hidle : x.await = .idle) {w : WorkerEvent} {rest : List WorkerEvent} (hw : x.events = w :: rest)
    {y : Entry σ} (hcase : EventCase w ⟨x.state, x.stream⟩ y)
    (hl : x'.Left y.state y.stream x.await x.known) :
    Speaks id x x' [] (OwnStep x.mode x'.mode) := by
  cases hcase with
  | ignored =>
    rw [hidle] at hl
    refine .answer hidle hl ?_
    have hmode : x'.mode = x.mode := by simp only [mode, hl.state, hl.stream, hl.await, hidle]
    rw [hmode]
    exact .stay _
  | retired hst ho hno hkept =>
    rename_i st'
    obtain ⟨⟨rfl, s, hs, hover⟩, -⟩ := hx.report hrun hidle hw hst ho st' hno
    obtain ⟨t, rfl⟩ := ne_none_iff_exists'.mp (hkept id rfl)
    have hs' : x'.stream = some { s with aborted := true } := by rw [hl.stream, hs]; rfl
    refine ⟨_, _, .quiet hidle hs hs' rfl ?_ ?_, ?_⟩
    · rw [hl.await, hidle]
      rfl
    · rw [hl.await, hidle]
      simp
    · obtain ⟨hopen, hearly⟩ := hno t rfl
      have hmode' : x'.mode = .closing true := by
        rw [mode_some hl.state, hs']
        exact Party.closing _ t hopen hearly
      rw [mode_opened hst ho hs, hmode', hover.1]
      exact .report

theorem SideMove.speaks (hx : x.Sound limits id) (hp : x.Poised id)
    (h : SideMove limits.maxData id x x' out) :
    ∃ new said, Said id x x' out new said ∧ OwnStep x.mode x'.mode said ∧ x'.known = x.known := by
  cases h with
  | skip | stop | refused => exact ⟨[], [], .nothing rfl rfl, .stay _, rfl⟩
  | act a hs hrun hstep =>
    rename_i s s' eff
    cases hw : a.isWorker with
    | false =>
      obtain ⟨hhand, hq, hframes⟩ := Stream.step_call hw hstep
      rw [hframes]
      refine ⟨[], [], .nothing ?_ ?_, ?_, rfl⟩
      · simp [hand, hs, hhand]
      · simp only [owes, hs, all_some, hq]
      · exact stays hs rfl (.inl hq)
    | true =>
      have hrun' : x.ended = false := by
        rcases hrun with hend | hcall
        · exact hend
        · rw [hw] at hcall
          cases hcall
      have hsound := hx.stream s hs
      obtain ⟨new, hm⟩ := hsound.step_moved (fun _ => hx.retired hrun' s hs) hstep
      obtain ⟨said, hwords, hown⟩ := hx.commits hp hrun' hs hm.commit
      refine ⟨new, said, ⟨?_, hwords⟩, hown, rfl⟩
      simp only [hand, hs, elim_some]
      rw [← append_assoc, hm.hand]
      rcases hx.hand_or_committed hp hs hm.commit with hnone | hnone <;> rw [hnone] <;> simp
  | sent hrun ha hf hn =>
    rename_i f next
    have hhand := hx.hand_sending hp ha
    have hnext : x.await.next.mode = .idle := by
      rw [ha]
      rcases hn with rfl | ⟨nonce, rfl⟩ <;> rfl
    refine ⟨[], [], ⟨?_, ?_⟩, ?_, rfl⟩
    · rw [hhand]
      cases hs : x.stream with
      | none => simp [hand, Await.hand]
      | some s =>
        have hnone := (hp.sending f next s ha hs).hand (hx.stream s hs) id
        simp [hand, hnone, Await.hand]
    · simp [owes, ha]
    · have hmode : mode { x with await := .idle } = x.mode := by
        cases hst : x.state with
        | none =>
          simp only [mode, hst, hnext]
          rfl
        | some st => simp only [mode, hst]
      rw [hmode]
      exact .stay _
  | closeFound hrun ha hs hg hq =>
    refine ⟨[], [], .nothing ?_ ?_, ?_, rfl⟩
    · simp [hand, hs, ha, Await.hand, Stream.hand]
    · simp [owes, ha, hs, hq]
    · exact stays hs (by rw [ha]; rfl) (.inl rfl)
  | closeTaken hrun ha hs hg hq =>
    rename_i reason
    have hclosed := ((hx.held hs).gate _ _ ha).2
    refine ⟨[.close id reason], [], ⟨?_, ?_⟩, ?_, rfl⟩
    · simp [hand, hs, ha, Await.hand, Stream.hand]
    · simp [owes, ha, hs, hq, Frame.sign]
    · exact stays hs (by rw [ha]; rfl) (.inr (hx.not_opened hrun hs hclosed))
  | closeSent hrun ha hs =>
    rename_i s reason
    have hfree := (hx.sends_alone ha hs).2.2
    refine ⟨[], [], ⟨?_, ?_⟩, ?_, rfl⟩
    · have hnew : Stream.hand id { s with driverGate := false, aborted := true } = [] := hfree
      simp [hand, hs, ha, Await.hand, hfree, hnew]
    · simp [owes, ha]
    · exact stays hs (by rw [ha]; rfl) (.inl rfl)
  | pushed hrun ha hs hg hpush =>
    obtain ⟨-, -, -, rfl⟩ := Stream.pushInbound_ok hpush
    refine ⟨[], [], .nothing ?_ ?_, ?_, rfl⟩
    · simp [hand, hs, ha, Await.hand, Stream.hand]
    · simp [owes, ha]
    · exact stays hs (by rw [ha]; rfl) (.inl rfl)
  | torn hend hs =>
    refine ⟨[], [], .nothing ?_ ?_, ?_, rfl⟩
    · simp [hand, hs, Stream.hand, Stream.sessionFailure, Stream.shut]
    · simp only [owes, hs, all_some]
      rfl
    · exact stays hs rfl (.inl rfl)

end Common

section Client

variable {limits : NegotiatedLimits} {id : ℕ} {x x' : Side ClientStreamState}

theorem ClientStep.known (hx : x.Sound limits id) {known : Bool}
    (hk : x.known = true → known = true) : ClientStep x.mode x.known [] x.mode known [] := by
  cases hkn : x.known with
  | true =>
    rw [hk hkn]
    exact .own _ (.stay _)
  | false =>
    cases known with
    | false => exact .own _ (.stay _)
    | true =>
      obtain ⟨hst, -, ha⟩ := hx.fresh hkn
      rw [mode_none hst (by rw [ha]; rfl)]
      exact .pass _

theorem CommandCase.speaks (hx : x.Sound limits id) (hidle : x.await = .idle)
    {cmd : ClientCommand} (hnew : Client.creates cmd = true → x.known = false ∧ id % 2 = 1)
    {full : Bool} (hr : CommandCase full ⟨x.state, x.stream⟩ r cmd)
    (hl : x'.Left r.entry.state r.entry.stream r.await (x.known || Client.creates cmd)) :
    Speaks id x x' [] (ClientStep x.mode x.known [] x'.mode x'.known) := by
  have hnone : x.state = none → x.mode = .idle := fun h => mode_none h (by rw [hidle]; rfl)
  cases hr with
  | keep =>
    refine .answer hidle hl ?_
    have hmode : x'.mode = x.mode := by
      simp only [mode, hl.state, hl.stream, hl.await, hidle]
    rw [hmode, hl.known]
    exact ClientStep.known hx fun hk => by rw [hk]; rfl
  | resolve hst | openIp hst =>
    obtain ⟨hk, -⟩ := hnew rfl
    refine .answer hidle hl ?_
    rw [hnone hst, mode_some hl.state, hl.known, hk]
    first | exact .ask | exact .want
  | openTo hst hmem =>
    refine .answer hidle hl ?_
    rw [mode_some hst, mode_some hl.state, hl.known]
    simp only [Client.creates, Bool.or_false]
    exact .wantKept _

  | closeOpened hst =>
    obtain ⟨s, hs, -⟩ := hx.opened _ hst rfl
    have hs' : x'.stream = some (s.sessionFailure cancelled) := by rw [hl.stream, hs]; rfl
    refine ⟨_, _, .gate hidle hs hs' rfl hl.await, ?_⟩
    rw [mode_opened hst rfl hs, mode_some hl.state, hs', hl.known]
    simp only [Client.creates, Bool.or_false]
    have hq' : (s.sessionFailure cancelled).closeQueued = s.closeQueued := rfl
    rw [hq']
    cases s.closeQueued with
    | false => exact .cancelOpened _
    | true => exact .own _ .report
  | @closeEarly _ st _ permit hst hearly =>
    have hs := hx.early _ hst hearly
    refine .answer hidle hl ?_
    have hs' : x'.stream = none := hl.stream.trans hs
    rw [mode_some hl.state, hs', mode_some hst, hl.known]
    simp only [Client.creates, Bool.or_false]
    cases st with
    | resolving | resolved | opening =>
      exact .cancelEarly _ rfl (by simp [Party.mode])
    | opened | closing => cases hearly

theorem handleClientFrame_ignored {e : Entry ClientStreamState} {permit : Bool}
    (h : handleClientFrame limits alive e f = .ok r) (hst : e.state = some (.closing permit))
    (hr : r.entry.state = e.state) : f.sign.late = true := by
  obtain ⟨state, stream⟩ := e
  cases hst
  cases f with
  | close =>
    cases h
    cases hr
  | hello | resolve | openTo | ping | pong => cases h
  | _ => rfl

theorem ClientStreamState.ignores_closing {state : Option ClientStreamState}
    (h : ClientStreamState.standing state = .ignores) :
    ∃ permit, state = some (.closing permit) := by
  cases state with
  | none => cases h
  | some st =>
    cases st with
    | closing permit => exact ⟨permit, rfl⟩
    | _ => cases h

theorem ClientFrameCase.speaks (hx : x.Sound limits id) (hidle : x.await = .idle)
    (hok : handleClientFrame limits alive ⟨x.state, x.stream⟩ f = .ok r)
    (hne : ∀ i, f ≠ .resolveOk i []) (hl : x'.Left r.entry.state r.entry.stream r.await x.known) :
    Speaks id x x' [] (ClientStep x.mode x.known [f.sign] x'.mode x'.known) := by
  have hcase := handleClientFrame_case hok
  cases hcase with
  | flow hc =>
    rcases hc.hushed hx hidle ClientStreamState.takes_opened hl with
      ⟨hst, hl⟩ | ⟨hf, hsaid, hmode, hopen⟩
    · obtain ⟨permit, hcl⟩ := ClientStreamState.ignores_closing hst
      have hlate := handleClientFrame_ignored hok hcl rfl
      refine .answer hidle hl ?_
      rw [mode_some hcl, mode_some (hl.state.trans hcl), hl.stream, hl.known]
      exact .hear _ _ (Mode.hear_closing hlate)
    · refine ⟨_, _, hsaid, ?_⟩
      rw [hmode, hl.known, hf]
      rcases hopen with hm | hm <;> rw [hm] <;> exact .hear _ _ rfl
  | late hcl hf =>
    have hlate : f.sign.late = true := by
      cases f <;> rcases hf with hf | hf | hf <;> first | rfl | cases hf
    refine .answer hidle hl ?_
    rw [mode_some hcl, mode_some (hl.state.trans hcl), hl.stream, hl.known]
    exact .hear _ _ (Mode.hear_closing hlate)
  | resolved hst hnil =>
    refine .answer hidle hl ?_
    rw [mode_some hst, mode_some hl.state, hl.known]
    exact .hear _ _ rfl
  | emptied hst he =>
    rename_i i port addresses
    exact absurd (by rw [he]) (hne i)
  | abandoned hst hnil =>
    have hs' : x'.stream = none := hl.stream.trans (hx.early _ hst rfl)
    refine .answer hidle hl ?_
    rw [mode_some hst, mode_some hl.state, hs', hl.known]
    exact .abandon _
  | opened hst =>
    have hs := hx.early _ hst rfl
    refine ⟨[], [], .nothing ?_ ?_, ?_⟩
    · simp only [hand, hl.stream, hl.await, hs, hidle, elim_some, elim_none]
      cases alive <;> rfl
    · simp only [owes, hl.await, hidle]
    · rw [mode_some hst, mode_opened hl.state rfl hl.stream, hl.known]
      cases alive <;> exact .hear _ _ rfl
  | resolveFailed hst | closeLast hst =>
    refine .answer hidle hl ?_
    rw [mode_some hst, hl.idle rfl, hl.known]
    exact .hear _ _ rfl
  | openFailed hst =>
    rename_i candidates permit
    refine .answer hidle hl ?_
    rw [mode_some hst, hl.known]
    cases candidates with
    | none =>
      rw [hl.idle rfl]
      exact .hear _ _ rfl
    | some =>
      rw [mode_some hl.state]
      exact .hear _ _ rfl
  | closeOpened hst =>
    rename_i reason permit
    obtain ⟨s, hs, -⟩ := hx.opened _ hst rfl
    have hs' : x'.stream = some (s.remoteClose reason) := by rw [hl.stream, hs]; rfl
    refine ⟨_, _, .gate hidle hs hs' rfl hl.await, ?_⟩
    have hq' : (s.remoteClose reason).closeQueued = s.closeQueued := rfl
    rw [mode_opened hst rfl hs, hl.idle rfl, hl.known, hq']
    cases s.closeQueued with
    | false => exact .hearClose _ rfl
    | true => exact .hear _ _ rfl
  | closeEarly hst hearly =>
    rename_i st
    refine .answer hidle hl ?_
    rw [mode_some hst, hl.idle rfl, hl.known]
    cases st with
    | resolving | resolved | opening => exact .hearClose _ rfl
    | opened | closing => cases hearly

theorem ClientMove.speaks (hx : x.Sound limits id) (hp : x.Poised id) {inp : List Frame}
    (h : ClientMove limits id x x' inp out)
    (hok : ∀ f ∈ inp, ∀ alive, ∃ r, handleClientFrame limits alive ⟨x.state, x.stream⟩ f = .ok r)
    (hne : ∀ f ∈ inp, ∀ i, f ≠ .resolveOk i []) :
    Speaks id x x' out (ClientStep x.mode x.known (inp.map Frame.sign) x'.mode x'.known) := by
  cases h with
  | side h =>
    obtain ⟨new, said, hsaid, hown, hk⟩ := h.speaks hx hp
    refine ⟨new, said, hsaid, ?_⟩
    rw [hk]
    exact .own _ hown
  | pass known | commandError =>
    exact ⟨[], [], .nothing rfl rfl, ClientStep.known hx fun hk => by rw [hk]; rfl⟩
  | command hid hrun hidle hnew h =>
    exact CommandCase.speaks hx hidle hnew (handleClientCommand_case h) ⟨rfl, rfl, rfl, rfl⟩
  | frame hf hrun hidle h =>
    exact ClientFrameCase.speaks hx hidle h (hne _ (mem_singleton_self _)) ⟨rfl, rfl, rfl, rfl⟩
  | frameError hf hrun hidle h =>
    obtain ⟨r, hr⟩ := hok _ (mem_singleton_self _) _
    rw [h] at hr
    cases hr
  | event hrun hidle hw =>
    exact .imp (EventCase.speaks hx hrun hidle hw (clientWorkerEvent_case _ _) ⟨rfl, rfl, rfl, rfl⟩)
      fun _ hown => .own _ hown

end Client

end Alighieri.Rdp
