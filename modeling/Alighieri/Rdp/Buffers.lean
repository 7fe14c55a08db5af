import Alighieri.Rdp.Session
import Alighieri.Rdp.SideSound

/-!
# The inbound buffers of a client (mux.rs:481-534, 896-927, 1740-1767)

A buffer is shared by its `RdpStream`, by the `StreamRecord` in the driver's table and by the two
workers. A CLOSE of the peer takes the record out of the table, which makes room for another
stream, while the `RdpStream` and its unread bytes stay with the caller.
-/

namespace Alighieri.Rdp
open Net Lts Session

variable {a : StreamAct} {eff : Effect} {out : List Frame} {r : ClientHandled} {act : ClientAct}
  {s s' : Stream} {maxData : ℕ} {c : Client}

def OutboundPc.finished : OutboundPc → Bool
  | .done _ | .killed => true
  | _ => false

namespace Stream

def released (s : Stream) : Bool :=
  s.dropped && s.aborted && s.outPc.finished && decide (s.creditPc = .done)

def buffered (s : Stream) : ℕ := bif s.released then 0 else s.inbound.length

theorem buffered_le (s : Stream) : s.buffered ≤ s.inbound.length := by
  unfold buffered
  cases s.released
  · exact Nat.le_refl _
  · exact Nat.zero_le _

theorem buffered_mono (hin : s'.inbound.length ≤ s.inbound.length)
    (hr : s.released = true → s'.released = true) : s'.buffered ≤ s.buffered := by
  cases h : s.released with
  | true =>
    have h' := hr h
    unfold buffered
    rw [h']
    exact Nat.zero_le _
  | false =>
    have hs : s.buffered = s.inbound.length := by
      unfold buffered
      rw [h]
      rfl
    rw [hs]
    exact Nat.le_trans s'.buffered_le hin

theorem buffered_marked (hin : s'.inbound = s.inbound) (hd : s'.dropped = s.dropped)
    (hout : s'.outPc = s.outPc) (hcr : s'.creditPc = s.creditPc)
    (hab : s.aborted = true → s'.aborted = true) : s'.buffered ≤ s.buffered := by
  refine buffered_mono (Nat.le_of_eq (by rw [hin])) fun hr => ?_
  simp only [released, Bool.and_eq_true] at hr ⊢
  rw [hd, hout, hcr]
  exact ⟨⟨⟨hr.1.1.1, hab hr.1.1.2⟩, hr.1.2⟩, hr.2⟩

theorem step_released {id : ℕ} (h : s.released = true) (a : StreamAct) :
    s.step maxData id a = none := by
  simp only [released, Bool.and_eq_true, decide_eq_true_eq] at h
  obtain ⟨⟨⟨hd, -⟩, ho⟩, hc⟩ := h
  have hout : s.outPc = .killed ∨ ∃ queued, s.outPc = .done queued := by
    cases hat : s.outPc <;> simp_all [OutboundPc.finished]
  cases a with
  | outbound => rcases hout with hat | ⟨queued, hat⟩ <;> simp [step, outboundStep, hat]
  | credit => simp [step, creditStep, hc]
  | reapOutbound =>
    rcases hout with hat | ⟨queued, hat⟩ <;> simp [step, reapOutbound, hat, OutboundPc.atAwait]
  | reapCredit => simp [step, reapCredit, hc]
  | _ => simp [step, hd]

theorem step_inbound {id : ℕ} (h : s.step maxData id a = some (s', eff)) :
    s'.inbound.length ≤ s.inbound.length := by
  have hcase := step_cases h
  cases hcase with
  | call hm =>
    cases hm with
    | read => simp
    | _ => exact Nat.le_refl _
  | outbound hm | credit hm => cases hm <;> exact Nat.le_refl _
  | reapOutbound | reapCredit => exact Nat.le_refl _

theorem step_buffered {id : ℕ} (h : s.step maxData id a = some (s', eff)) :
    s'.buffered ≤ s.buffered := by
  refine buffered_mono (step_inbound h) fun hr => ?_
  rw [step_released hr a] at h
  cases h

theorem Sound.buffered_le_window {window : ℕ} (hs : s.Sound maxData window) :
    s.buffered ≤ window := by
  have hle := s.buffered_le
  have hcredit := hs.credit
  omega

end Stream

/- The sides that count: an open stream, or one with bytes in its buffer. -/
def Side.Holds {σ : Type} [StreamState σ] (x : Side σ) : Prop :=
  (∃ st, x.state = some st ∧ StreamState.opened st = true) ∨
    ∃ s, x.stream = some s ∧ 0 < s.buffered

namespace Side

variable {limits : NegotiatedLimits} {id : ℕ}

section Common

variable {σ : Type} [StreamState σ] {x x' : Side σ}

theorem Holds.back (h : x'.Holds)
    (hst : ∀ st, x'.state = some st → StreamState.opened st = true → x.state = some st)
    (hs : ∀ s', x'.stream = some s' → ∃ s, x.stream = some s ∧ s'.buffered ≤ s.buffered) :
    x.Holds := by
  rcases h with ⟨st, h, ho⟩ | ⟨s', h, hpos⟩
  · exact .inl ⟨st, hst st h ho, ho⟩
  · obtain ⟨s, h', hle⟩ := hs s' h
    exact .inr ⟨s, h', Nat.lt_of_lt_of_le hpos hle⟩

theorem Holds.of_stream {await : Await} {events : List WorkerEvent}
    (h : Holds { x with stream := some s', await := await, events := events })
    (hs : x.stream = some s) (hle : s'.buffered ≤ s.buffered) : x.Holds := by
  refine h.back (fun st hst _ => hst) fun t ht => ⟨s, hs, ?_⟩
  cases ht
  exact hle

theorem Sound.holds_move (hx : x.Sound limits id) (hm : SideMove limits.maxData id x x' out)
    (h : x'.Holds) : x.Holds := by
  cases hm with
  | skip | stop | sent | refused => exact h
  | act a hs hrun hstep => exact h.of_stream hs (Stream.step_buffered hstep)
  | closeFound hrun ha hs | closeSent hrun ha hs =>
    exact h.of_stream hs (Stream.buffered_marked rfl rfl rfl rfl fun _ => rfl)
  | closeTaken hrun ha hs =>
    exact h.of_stream hs (Stream.buffered_marked rfl rfl rfl rfl fun hab => hab)
  | pushed hrun ha =>
    -- the driver fills the buffer of an open stream
    obtain ⟨-, hopen⟩ := hx.credit _ _ ha
    exact .inl hopen
  | torn hend hs => exact h.of_stream hs (Stream.buffered_marked rfl rfl rfl rfl fun _ => rfl)

end Common

variable {x x' : Side ClientStreamState}

theorem holds_same {st : Option ClientStreamState} {await : Await} {known : Bool}
    (h : Holds { x with state := st, await := await, known := known })
    (hst : ∀ s, st = some s → StreamState.opened s = true → x.state = some s) : x.Holds :=
  h.back hst fun s hs => ⟨s, hs, Nat.le_refl _⟩

theorem holds_command {cmd : ClientCommand} {full : Bool}
    (hr : CommandCase full ⟨x.state, x.stream⟩ r cmd)
    {known : Bool} (h : Holds { x with
      state := r.entry.state, stream := r.entry.stream, await := r.await, known := known }) :
    x.Holds := by
  cases hr with
  | keep => exact holds_same h fun s hs _ => hs
  | resolve hx | openTo hx hmem | openIp hx | closeEarly permit hx hst =>
    exact holds_same h (by simp [StreamState.opened])
  | closeOpened hx => exact .inl ⟨_, hx, rfl⟩

theorem Sound.holds_frame {alive : Bool} (hx : x.Sound limits id) {f : Frame} (hf : f.lane = some id)
    (hr : ClientFrameCase limits alive ⟨x.state, x.stream⟩ r f) (h : Holds { x with
      state := r.entry.state, stream := r.entry.stream, await := r.await }) :
    x.Holds ∨ ∃ bound st, f = .openOk id bound ∧ x.state = some st := by
  cases hr with
  | flow hc =>
    have hopen : ClientStreamState.standing x.state = .takes → x.Holds := fun ht =>
      .inl (ClientStreamState.takes_opened ht)
    refine .inl ?_
    cases hc with
    | ignored hst => exact holds_same h fun s hs _ => hs
    | data ht | shutdown ht | credit ht | missing ht => exact hopen ht
  | late hx' hf' => exact .inl (holds_same h fun s hs _ => hs)
  | resolved hx' hne | abandoned hx' hne | openFailed hx' =>
    exact .inl (holds_same h (by simp [StreamState.opened]))
  | emptied hx' he | resolveFailed hx' | closeLast hx' | closeEarly hx' hst =>
    exact .inl (holds_same h (by simp))
  | opened hx' =>
    cases hf
    exact .inr ⟨_, _, rfl, hx'⟩
  | closeOpened hx' => exact .inl (.inl ⟨_, hx', rfl⟩)

/-- A stream comes to count only when its OPEN_OK is handled. -/
theorem Sound.holds_client (hx : x.Sound limits id) {inp : List Frame}
    (hm : ClientMove limits id x x' inp out) (h : x'.Holds) :
    x.Holds ∨ ∃ bound st, inp = [.openOk id bound] ∧ x.state = some st := by
  cases hm with
  | side hm => exact .inl (hx.holds_move hm h)
  | pass | commandError | frameError =>
    exact .inl h
  | command hid hrun hidle hnew hr => exact .inl (holds_command (handleClientCommand_case hr) h)
  | frame hf hrun hidle hr =>
    rcases hx.holds_frame hf (handleClientFrame_case hr) h with hh | ⟨bound, st, rfl, hst⟩
    · exact .inl hh
    · exact .inr ⟨bound, st, rfl, hst⟩
  | event hrun hidle hw =>
    rename_i w rest
    have hcase := clientWorkerEvent_case ⟨x.state, x.stream⟩ w
    generalize clientWorkerEvent ⟨x.state, x.stream⟩ w = y at hcase h
    cases hcase with
    | ignored => exact .inl h
    | retired hst ho => exact .inl (.inl ⟨_, hst, ho⟩)

end Side

namespace Client

def buffered (c : Client) : ℕ := Table.sum Stream.buffered c.ep.live

/- The streams that hold bytes without being open: closed by either end, and not read to
the end by their owner. -/
def unread (c : Client) : List ℕ :=
  (Table.keysWhere (fun s => decide (0 < s.buffered)) c.ep.live).filter fun id =>
    !(c.ep.streams.lookup id).any StreamState.opened

def openOkNext (c : Client) : Bool :=
  match c.ep.frames with
  | .openOk _ _ :: _ => true
  | _ => false

/-- An OPEN_OK finds room beside the table and the closed streams that hold bytes. -/
def Roomy (limits : NegotiatedLimits) (c : Client) : ClientAct → Prop
  | .frame _ => c.openOkNext = true →
      c.ep.streams.size + c.unread.length ≤ limits.maxStreams
  | _ => True

instance (limits : NegotiatedLimits) (c : Client) (a : ClientAct) : Decidable (c.Roomy limits a) := by
  cases a <;> unfold Roomy <;> infer_instance

/-- At most `maxStreams` streams are open or hold bytes. -/
structure Bounded (limits : NegotiatedLimits) (c : Client) : Prop where
  sound : c.Sound limits
  holders : ∃ ids : List ℕ, ids.length ≤ limits.maxStreams ∧ ∀ id, (c.side id).Holds → id ∈ ids

theorem Bounded.start (limits : NegotiatedLimits) : Client.start.Bounded limits := by
  refine ⟨.start limits, [], Nat.zero_le _, ?_⟩
  rintro id (⟨st, hst, -⟩ | ⟨s, hs, -⟩)
  · cases hst
  · cases hs

theorem mem_table_or_unread {id : ℕ} (h : (c.side id).Holds) :
    id ∈ c.ep.streams.keys ++ c.unread := by
  by_cases ho : (c.ep.streams.lookup id).any StreamState.opened = true
  · refine List.mem_append_left _ ((Table.mem_keys_iff _ _).mpr ?_)
    cases hst : c.ep.streams.lookup id with
    | none =>
      rw [hst] at ho
      cases ho
    | some st => rfl
  · refine List.mem_append_right _ (List.mem_filter.mpr ⟨?_, by simpa using ho⟩)
    rcases h with ⟨st, hst, hopen⟩ | ⟨s, hs, hpos⟩
    · have hst' : c.ep.streams.lookup id = some st := hst
      rw [hst'] at ho
      exact absurd hopen ho
    · exact Table.mem_keysWhere hs (by simpa using hpos)

theorem openOk_taken {id : ℕ} {bound : SocketAddr}
    (h : onLane id (c.taken act) = [.openOk id bound]) :
    (∃ alive, act = .frame alive) ∧ c.openOkNext = true := by
  cases act with
  | frame alive =>
    refine ⟨⟨alive, rfl⟩, ?_⟩
    have htake : onLane id (c.ep.frames.take 1) = [.openOk id bound] := h
    unfold openOkNext
    cases hf : c.ep.frames with
    | nil =>
      rw [hf] at htake
      cases htake
    | cons f rest =>
      have hmem : Frame.openOk id bound ∈ onLane id [f] := by
        rw [hf] at htake
        rw [show [f] = (f :: rest).take 1 from rfl, htake]
        exact List.mem_singleton_self _
      have he := List.mem_singleton.mp (List.mem_filter.mp hmem).1
      rw [← he]
  | _ => cases h

theorem Bounded.step {limits : NegotiatedLimits} {caps : Caps} {c' : Client}
    (hc : c.Bounded limits) (hroom : c.Roomy limits act) (h : c.step limits caps act = some c') :
    c'.Bounded limits := by
  refine ⟨hc.sound.step h, ?_⟩
  have hback : ∀ id, (c'.side id).Holds → (c.side id).Holds ∨
      ∃ bound st, onLane id (c.taken act) = [.openOk id bound] ∧ c.ep.streams.lookup id = some st := by
    intro id hh
    obtain ⟨out, hmove, -⟩ := Client.step_taken hc.sound.orderly h id
    exact (hc.sound.sides id).holds_client hmove hh
  by_cases hspawn : (∃ alive, act = .frame alive) ∧ c.openOkNext = true
  · obtain ⟨⟨alive, rfl⟩, hnext⟩ := hspawn
    refine ⟨c.ep.streams.keys ++ c.unread, ?_, ?_⟩
    · rw [List.length_append]
      exact hroom hnext
    · intro id hh
      rcases hback id hh with hh | ⟨bound, st, -, hst⟩
      · exact mem_table_or_unread hh
      · refine List.mem_append_left _ ((Table.mem_keys_iff _ _).mpr ?_)
        rw [hst]
        rfl
  · obtain ⟨ids, hle, hids⟩ := hc.holders
    refine ⟨ids, hle, fun id hh => ?_⟩
    rcases hback id hh with hh | ⟨bound, st, htaken, -⟩
    · exact hids id hh
    · exact absurd (openOk_taken htaken) hspawn

theorem Bounded.buffered_le {limits : NegotiatedLimits} (hc : c.Bounded limits) :
    c.buffered ≤ limits.maxStreams * limits.receiveWindow := by
  obtain ⟨ids, hle, hids⟩ := hc.holders
  have hsum : c.buffered ≤ ids.length * limits.receiveWindow := by
    refine Table.sum_le ?_ ?_
    · intro id s hs
      exact ((hc.sound.sides id).stream s hs).buffered_le_window
    · intro id s hs hpos
      exact hids id (.inr ⟨s, hs, hpos⟩)
  exact Nat.le_trans hsum (Nat.mul_le_mul_right _ hle)

end Client

namespace Session

def Roomy (u : Setup) (s : Session) : SessionAct → Prop
  | .client a => s.client.Roomy u.limits a
  | _ => True

instance (u : Setup) (s : Session) (a : SessionAct) : Decidable (s.Roomy u a) := by
  cases a <;> unfold Roomy <;> infer_instance

theorem bounded_step {u : Setup} {s t : Session} {act : SessionAct}
    (hs : s.client.Bounded u.limits) (hroom : s.Roomy u act) (h : s.step u act = some t) :
    t.client.Bounded u.limits := by
  have hwire : ∀ reader writer, Client.Bounded u.limits
      { s.client with ep := { s.client.ep with reader := reader, writer := writer } } := by
    intro reader writer
    exact ⟨hs.sound.wire reader writer, hs.holders⟩
  cases step_move h with
  | client hstep => exact hs.step hroom hstep
  | agent | recvUp | sendDown => exact hs
  | sendUp | recvDown => exact hwire _ _

end Session

/-- In runs in which OPEN_OKs find room beside the closed streams that still hold bytes, the
inbound buffers of the client stay within the negotiated streams and window. -/
theorem buffers_within_negotiated (u : Setup) {s : Session}
    (h : ReachableBy (step u) (Session.Roomy u) start s) :
    s.client.buffered ≤ u.limits.maxStreams * u.limits.receiveWindow := by
  have hb : s.client.Bounded u.limits :=
    h.invariant (P := fun t => t.client.Bounded u.limits) (.start u.limits)
      fun _ _ _ hs hok ht => bounded_step hs hok ht
  exact hb.buffered_le

/- One stream at a time, of one byte, over the smallest channels. -/
def tightSetup : Setup := ⟨oneStream, ⟨true, true, true⟩, smallCaps, smallCaps⟩

/- A caller opens the stream `id`, and the agent accepts it. -/
def openRun : List SessionAct :=
  [.client (.openIp (.v4 0x08080808 80)), .client .command, .client .resume, .client (.pick false),
    .sendUp, .recvUp, .agent .deliver, .agent .frame,
    .agent (.finish 0 (.socket (.ok (.ok (.v4 0x0a000001 4000))))), .agent .resume, .agent (.pick false),
    .sendDown, .recvDown, .client .deliver, .client (.frame true)]

/- The agent's end of the stream `id` sends one byte, which nobody reads. -/
def byteRun (id : ℕ) : List SessionAct :=
  [.agent (.stream id (.write [7])), .agent (.stream id .outbound), .agent (.stream id .outbound),
    .agent (.stream id .outbound), .agent (.stream id .outbound), .agent (.stream id .outbound),
    .agent (.pick false), .sendDown, .recvDown, .client .deliver, .client (.frame true), .client .resume]

/- The agent's end closes the stream `id`, and the client acknowledges it. -/
def closeRun (id : ℕ) : List SessionAct :=
  [.agent (.stream id .drop), .agent (.stream id .outbound), .agent (.stream id .outbound),
    .agent (.stream id .outbound), .agent (.stream id .outbound), .agent (.pick false), .sendDown, .recvDown,
    .client .deliver, .client (.frame true), .client .resume, .client .resume, .client (.pick false),
    .sendUp, .agent .event, .agent (.joinRelay id), .recvUp, .agent .deliver, .agent .frame]

/-- The byte of a closed stream is still held when the next stream has taken its place and has
been sent a byte too. -/
theorem closed_stream_keeps_its_buffer :
    ∃ s, exec (step tightSetup) start
        (openRun ++ byteRun 1 ++ closeRun 1 ++ openRun ++ byteRun 3) = some s ∧
      s.client.ep.streams.keys = [3] ∧ s.client.unread = [1] ∧ s.client.buffered = 2 ∧
      tightSetup.limits.maxStreams * tightSetup.limits.receiveWindow = 1 :=
  ⟨_, rfl, rfl, rfl, rfl, rfl⟩

def readRun : List SessionAct :=
  openRun ++ byteRun 1 ++ [.client (.stream 1 (.read 1))] ++ closeRun 1 ++ openRun ++ byteRun 3

theorem buffers_within_negotiated_read :
    ∃ s, ReachableBy (step tightSetup) (Session.Roomy tightSetup) start s ∧
      s.client.buffered = 1 ∧
      s.client.buffered ≤ tightSetup.limits.maxStreams * tightSetup.limits.receiveWindow := by
  obtain ⟨s, hs, hb⟩ : ∃ s, execBy (step tightSetup) (Session.Roomy tightSetup)
      start readRun = some s ∧ s.client.buffered = 1 := ⟨_, rfl, rfl⟩
  have hr := reachableBy_execBy readRun .start hs
  exact ⟨s, hr, hb, buffers_within_negotiated tightSetup hr⟩

end Alighieri.Rdp
