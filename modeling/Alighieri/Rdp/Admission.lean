import Alighieri.Rdp.SlotSteps

/-!
# Admission of new streams (mux.rs:187-301)

`resolve` and `open_ip` up to the moment their command is in the queue: the permit, the admission
lock, `allocate_stream_id`, the send and the release of the lock. A caller may time out or be
dropped at each await (the permit, the lock, the send). `allocations` is the history of what
`allocate_stream_id` has returned, `received` that of the commands the driver has taken.
-/

namespace Alighieri.Rdp
open Net Lts List Option Table

inductive Ask where
  | resolve (hostname : Text) (port : ℕ)
  | openIp (address : SocketAddr)
  deriving DecidableEq, Repr

namespace Ask

/- The frame is validated under identifier 1 before anything is awaited. -/
def valid : Ask → Bool
  | .resolve hostname port => ((Frame.resolve 1 port hostname).validate matches .ok _)
  | .openIp address => ((Frame.openTo 1 (canonicalizeAddress address)).validate matches .ok _)

def command (id : ℕ) : Ask → ClientCommand
  | .resolve hostname port => .resolve id hostname port
  | .openIp address => .openIp id (canonicalizeAddress address)

def caller : Ask → Caller
  | .resolve _ _ => .resolving none
  | .openIp _ => .openingIp none

end Ask

/- Where a call stands. `slot`, `lock` and `sending` are its awaits. -/
inductive Entrant where
  | slot (ask : Ask)
  | lock (ask : Ask)
  | locked (ask : Ask)
  | sending (ask : Ask) (id : ℕ)
  | sent
  deriving DecidableEq, Repr

namespace Entrant

def permit : Entrant → Bool
  | .lock _ | .locked _ | .sending _ _ => true
  | _ => false

def holds : Entrant → Bool
  | .locked _ | .sending _ _ | .sent => true
  | _ => false

def asks : Entrant → Option Ask
  | .slot ask | .lock ask | .locked ask | .sending ask _ => some ask
  | .sent => none

def pending : Entrant → Option ℕ
  | .sending _ id => some id
  | _ => none

end Entrant

/- `fetch_update` with `checked_add(2)`: an update that fails leaves the counter alone. -/
def allocateStreamId (next : ℕ) : Except MuxError ℕ × ℕ :=
  if next + 2 < 2 ^ 32 then (.ok next, next + 2) else (.error .streamIdExhausted, next)

def Client.withNext (c : Client) (next : ℕ) : Client := { c with nextStreamId := next }

def Handle.withNext (h : Handle) (next : ℕ) : Handle := { h with client := h.client.withNext next }

structure Admission where
  handle : Handle
  admission : Option ℕ
  entrants : Table ℕ Entrant
  allocations : List (Except MuxError ℕ)
  received : List ClientCommand

variable {a : HandleAct} {c : Client} {h h' : Handle} {id t : ℕ} {ask : Ask} {x : Entrant}
  {y : Option Entrant} {d d' : Admission}

inductive AdmissionAct where
  | session (a : HandleAct)
  | enter (t : ℕ) (ask : Ask)
  | acquire (t : ℕ)
  | lock (t : ℕ)
  | allocate (t : ℕ)
  | send (t : ℕ)
  | release (t : ℕ)
  | giveUp (t : ℕ)

def HandleAct.allocates : HandleAct → Bool
  | .resolve _ _ | .openIp _ | .client .skipId => true
  | _ => false

/- Everything but what the callers here do in pieces. -/
def HandleAct.isSession : HandleAct → Bool
  | .acquire | .leave => false
  | a => !a.allocates

def ClientAct.takes : ClientAct → ℕ
  | .command => 1
  | _ => 0

def Handle.taken (h : Handle) : HandleAct → List ClientCommand
  | .client a => h.client.commands.take a.takes
  | _ => []

namespace Admission

def start : Admission := ⟨.start, none, ∅, [], []⟩

/- A caller goes without having sent anything: its guard and its permit are dropped. -/
def leave (d : Admission) (t : ℕ) : Admission :=
  { d with
    handle := { d.handle with slots := d.handle.slots - 1 }
    admission := if d.admission = some t then none else d.admission
    entrants := d.entrants.set t none }

def step (limits : NegotiatedLimits) (caps : Caps) (d : Admission) :
    AdmissionAct → Option Admission
  | .session a =>
    if a.isSession then
      (d.handle.step limits caps a).map fun h =>
        { d with handle := h, received := d.received ++ d.handle.taken a }
    else none
  | .enter t ask =>
    if (d.entrants.lookup t).isNone && ask.valid then
      some { d with entrants := d.entrants.set t (some (.slot ask)) }
    else none
  | .acquire t =>
    match d.entrants.lookup t with
    | some (.slot ask) =>
      (d.handle.step limits caps .acquire).map fun h =>
        { d with handle := h, entrants := d.entrants.set t (some (.lock ask)) }
    | _ => none
  | .lock t =>
    match d.entrants.lookup t, d.admission with
    | some (.lock ask), none =>
      some { d with admission := some t, entrants := d.entrants.set t (some (.locked ask)) }
    | _, _ => none
  | .allocate t =>
    match d.entrants.lookup t with
    | some (.locked ask) =>
      match allocateStreamId d.handle.client.nextStreamId with
      | (.ok id, next) =>
        some { d with
          handle := d.handle.withNext next
          entrants := d.entrants.set t (some (.sending ask id))
          allocations := d.allocations ++ [.ok id] }
      | (.error e, _) => some { d.leave t with allocations := d.allocations ++ [.error e] }
    | _ => none
  | .send t =>
    match d.entrants.lookup t with
    | some (.sending ask id) =>
      (d.handle.client.send caps (ask.command id)).map fun c =>
        { d with
          handle := ⟨c, d.handle.slots - 1, d.handle.callers.set id (some ask.caller)⟩
          entrants := d.entrants.set t (some .sent) }
    | _ => none
  | .release t =>
    match d.entrants.lookup t with
    | some .sent => some { d with admission := none, entrants := d.entrants.set t none }
    | _ => none
  | .giveUp t =>
    match d.entrants.lookup t with
    | some (.slot _) => some { d with entrants := d.entrants.set t none }
    | some (.lock _) | some (.sending _ _) => some (d.leave t)
    | _ => none

def pending (d : Admission) : Option ℕ :=
  (d.admission.bind d.entrants.lookup).bind Entrant.pending

end Admission

/-! ### The commands that create a stream -/

def newStreams (commands : List ClientCommand) : List ℕ :=
  (commands.filter Client.creates).map Client.commandId

theorem newStreams_append (l l' : List ClientCommand) :
    newStreams (l ++ l') = newStreams l ++ newStreams l' := by
  simp only [newStreams, filter_append, map_append]

theorem newStreams_snoc (l : List ClientCommand) {cmd : ClientCommand}
    (h : Client.creates cmd = false) : newStreams (l ++ [cmd]) = newStreams l := by
  rw [newStreams_append]
  simp [newStreams, h]

theorem Client.step_commands {limits : NegotiatedLimits} {caps : Caps} {c' : Client}
    {a : ClientAct} (ha : a.isDriver = true ∨ ∃ alive, a = .frame alive)
    (h : c.step limits caps a = some c') :
    c'.commands = c.commands.drop a.takes ∧
      (a ≠ .skipId → c'.nextStreamId = c.nextStreamId) := by
  cases Client.step_cases h with
  | turn hact ht =>
    refine ⟨?_, fun _ => rfl⟩
    cases a with
    | command => exact absurd rfl hact
    | _ => rfl
  | resolve | openIp | openTo | close => simp [ClientAct.isDriver] at ha
  | skipId => exact ⟨rfl, fun hne => absurd rfl hne⟩
  | command hready hc =>
    obtain ⟨hcommands, hnext, -⟩ := Client.settle_commands _ _ _
    refine ⟨?_, fun _ => hnext⟩
    rw [hcommands, hc]
    rfl
  | frame =>
    obtain ⟨hcommands, hnext, -⟩ := Client.settle_commands _ _ _
    exact ⟨hcommands, fun _ => hnext⟩
  | event | resume => exact ⟨rfl, fun _ => rfl⟩

theorem Handle.finish_newStreams (caps : Caps) (h : Handle) (id : ℕ) (left : Option Caller × Bool) :
    newStreams (h.finish caps id left).client.commands = newStreams h.client.commands ∧
      (h.finish caps id left).client.nextStreamId = h.client.nextStreamId := by
  obtain ⟨q, heq, hq⟩ := finish_cases caps h id left
  rw [heq]
  refine ⟨?_, rfl⟩
  rcases hq with rfl | ⟨-, rfl⟩
  · rfl
  · exact newStreams_snoc _ rfl

/- A session creates no stream: the creating commands leave the queue at its front. -/
theorem Handle.step_session {limits : NegotiatedLimits} {caps : Caps} (ha : a.isSession = true)
    (hs : h.step limits caps a = some h') :
    newStreams (h.taken a ++ h'.client.commands) = newStreams h.client.commands ∧
      h'.client.nextStreamId = h.client.nextStreamId ∧ h'.slots = h.slots := by
  cases a with
  | client a =>
    obtain ⟨hact, hs⟩ := ite_none_right_eq_some.mp hs
    obtain ⟨c, hc, rfl⟩ := map_eq_some_iff.mp hs
    obtain ⟨hcommands, hnext⟩ := Client.step_commands (.inl hact) hc
    refine ⟨?_, hnext (by rintro rfl; cases ha), rfl⟩
    show newStreams (h.client.commands.take a.takes ++ c.commands) = _
    rw [hcommands, take_append_drop]
  | frame =>
    simp only [Handle.step] at hs
    split at hs
    · cases hs
    obtain ⟨c, hc, rfl⟩ := map_eq_some_iff.mp hs
    obtain ⟨hcommands, hnext⟩ := Client.step_commands (.inr ⟨_, rfl⟩) hc
    refine ⟨?_, hnext (fun h => by cases h), rfl⟩
    show newStreams c.commands = _
    rw [hcommands]
    rfl
  | arrive f | depart =>
    obtain ⟨c, hc, rfl⟩ := map_eq_some_iff.mp hs
    obtain ⟨ep, -, rfl⟩ := map_eq_some_iff.mp hc
    exact ⟨rfl, rfl, rfl⟩
  | acquire | leave | resolve | openIp => cases ha
  | receive id =>
    obtain ⟨left, -, rfl⟩ := map_eq_some_iff.mp hs
    obtain ⟨hstreams, hnext⟩ := finish_newStreams caps h id left
    exact ⟨hstreams, hnext, rfl⟩
  | offer =>
    obtain ⟨c, -, rfl⟩ := map_eq_some_iff.mp hs
    exact ⟨rfl, rfl, rfl⟩
  | submit id =>
    simp only [Handle.step] at hs
    split at hs
    · obtain ⟨c, hc, rfl⟩ := map_eq_some_iff.mp hs
      obtain ⟨-, rfl⟩ := send_cases hc
      exact ⟨newStreams_snoc _ rfl, rfl, rfl⟩
    · cases hs
  | giveUp id =>
    obtain ⟨c, -, hs⟩ := map_eq_some_iff.mp hs
    obtain ⟨ep, -, -, rfl⟩ := giveUp_client hs
    obtain ⟨hstreams, hnext⟩ := finish_newStreams caps { h with client := { h.client with ep := ep } } id
      c.giveUp
    exact ⟨hstreams, hnext, rfl⟩

/-! ### The invariant -/

def oddIds (n : ℕ) : List ℕ := (List.range n).map fun i => 2 * i + 1

theorem oddIds_succ (n : ℕ) : oddIds (n + 1) = oddIds n ++ [2 * n + 1] := by
  simp only [oddIds, range_succ, map_append, map_cons, map_nil]

theorem oddIds_rising (n : ℕ) : (oddIds n).Pairwise (· < ·) := by
  refine pairwise_map.mpr (pairwise_lt_range.imp ?_)
  intro a b hab
  omega

namespace Admission

variable {limits : NegotiatedLimits} {caps : Caps}

def next (d : Admission) : ℕ := d.handle.client.nextStreamId

structure Inv (d : Admission) : Prop where
  holder : ∀ t, d.admission = some t ↔ (d.entrants.lookup t).any Entrant.holds = true
  valid : ∀ t x ask, d.entrants.lookup t = some x → x.asks = some ask → ask.valid = true
  slots : d.handle.slots = d.entrants.count Entrant.permit
  odd : d.next % 2 = 1
  bound : d.next < 2 ^ 32
  counted : ∃ m, d.allocations = (oddIds (d.next / 2)).map .ok ++
    replicate m (.error .streamIdExhausted) ∧ (0 < m → 2 ^ 32 ≤ d.next + 2)
  fresh : ∀ id, d.pending = some id → id + 2 = d.next
  used : (newStreams (d.received ++ d.handle.client.commands) ++ d.pending.toList).Sublist
    (oddIds (d.next / 2))

theorem Inv.start : Inv start where
  holder t := by
    show none = some t ↔ false = true
    simp
  valid t x ask h := by cases h
  slots := rfl
  odd := rfl
  bound := by decide
  counted := ⟨0, rfl, fun h => absurd h (Nat.lt_irrefl 0)⟩
  fresh id h := by cases h
  used := Sublist.refl _

theorem pending_of_lookup (ha : d.admission = some t) (hx : d.entrants.lookup t = some x) :
    d.pending = x.pending := by
  unfold pending
  rw [ha]
  show (d.entrants.lookup t).bind Entrant.pending = _
  rw [hx]
  rfl

theorem Inv.admission_eq (h : d.Inv) (hx : d.entrants.lookup t = some x) :
    d.admission = some t ↔ x.holds = true := by
  rw [h.holder t, hx]
  rfl

theorem Inv.holder_set (h : d.Inv) (he : d'.entrants = d.entrants.set t y)
    (ht : d'.admission = some t ↔ y.any Entrant.holds = true)
    (hother : ∀ t', t' ≠ t → (d'.admission = some t' ↔ d.admission = some t')) :
    ∀ t', d'.admission = some t' ↔ (d'.entrants.lookup t').any Entrant.holds = true := by
  intro t'
  rw [he, lookup_set]
  by_cases hne : t' = t
  · rw [if_pos hne, hne]
    exact ht
  · rw [if_neg hne, hother t' hne]
    exact h.holder t'

theorem Inv.valid_set (h : d.Inv) (he : d'.entrants = d.entrants.set t y)
    (hy : ∀ x ask, y = some x → x.asks = some ask → ask.valid = true) :
    ∀ t' x ask, d'.entrants.lookup t' = some x → x.asks = some ask → ask.valid = true := by
  intro t' x ask hx hask
  rw [he, lookup_set] at hx
  split at hx
  · exact hy x ask hx hask
  · exact h.valid t' x ask hx hask

theorem pending_set (he : d'.entrants = d.entrants.set t y) (ha : d'.admission = d.admission)
    (hne : d.admission ≠ some t) : d'.pending = d.pending := by
  unfold pending
  rw [he, ha]
  cases hadm : d.admission with
  | none => rfl
  | some t' =>
    have hne' : t' ≠ t := fun e => hne (hadm.trans (congrArg some e))
    show ((d.entrants.set t y).lookup t').bind _ = (d.entrants.lookup t').bind _
    rw [lookup_set_of_ne hne']

theorem pending_set_self {entrants : Table ℕ Entrant} (he : d'.entrants = entrants.set t (some x))
    (ha : d'.admission = some t) : d'.pending = x.pending := by
  refine pending_of_lookup ha ?_
  rw [he, lookup_set_self]

theorem Inv.move (h : d.Inv) (he : d'.entrants = d.entrants.set t y)
    (ht : d'.admission = some t ↔ y.any Entrant.holds = true)
    (hother : ∀ t', t' ≠ t → (d'.admission = some t' ↔ d.admission = some t'))
    (hvalid : ∀ x ask, y = some x → x.asks = some ask → ask.valid = true)
    (hslots : d'.handle.slots + one Entrant.permit (d.entrants.lookup t) =
      d.handle.slots + one Entrant.permit y) (hnext : d'.next = d.next)
    (halloc : ∃ k, d'.allocations = d.allocations ++ replicate k (.error .streamIdExhausted) ∧
      (0 < k → 2 ^ 32 ≤ d.next + 2)) (hfresh : ∀ id, d'.pending = some id → d.pending = some id)
    (hused : (newStreams (d'.received ++ d'.handle.client.commands) ++ d'.pending.toList).Sublist
      (newStreams (d.received ++ d.handle.client.commands) ++ d.pending.toList)) : d'.Inv where
  holder := h.holder_set he ht hother
  valid := h.valid_set he hvalid
  slots := by
    have hcount := count_set Entrant.permit d.entrants t y
    have hold := h.slots
    rw [he]
    omega
  odd := hnext ▸ h.odd
  bound := hnext ▸ h.bound
  counted := by
    obtain ⟨m, hm, hfull⟩ := h.counted
    obtain ⟨k, hk, hfull'⟩ := halloc
    refine ⟨m + k, ?_, ?_⟩
    · rw [hk, hm, hnext, append_assoc, replicate_append_replicate]
    · intro hpos
      rw [hnext]
      rcases Nat.eq_zero_or_pos m with hm0 | hmpos
      · exact hfull' (by omega)
      · exact hfull hmpos
  fresh id hid := (h.fresh id (hfresh id hid)).trans hnext.symm
  used := by
    rw [hnext]
    exact hused.trans h.used

theorem noAllocation (d : Admission) : ∃ k, d.allocations = d.allocations ++
    replicate k (.error .streamIdExhausted) ∧ (0 < k → 2 ^ 32 ≤ d.next + 2) :=
  ⟨0, (append_nil _).symm, fun h => absurd h (Nat.lt_irrefl 0)⟩

theorem Inv.stroll (h : d.Inv) (hx : (d.entrants.lookup t).any Entrant.holds = false)
    (hy : y.any Entrant.holds = false) (he : d'.entrants = d.entrants.set t y)
    (ha : d'.admission = d.admission)
    (hvalid : ∀ x ask, y = some x → x.asks = some ask → ask.valid = true)
    (hslots : d'.handle.slots + one Entrant.permit (d.entrants.lookup t) =
      d.handle.slots + one Entrant.permit y) (hc : d'.handle.client = d.handle.client)
    (hr : d'.received = d.received) (hl : d'.allocations = d.allocations) : d'.Inv := by
  have hne : d.admission ≠ some t := by
    intro hadm
    rw [(h.holder t).mp hadm] at hx
    cases hx
  have hpending := pending_set he ha hne
  refine h.move he ?_ (fun t' _ => by rw [ha]) hvalid hslots ?_ ?_ ?_ ?_
  · rw [ha, hy]
    exact ⟨fun hadm => absurd hadm hne, fun hf => by cases hf⟩
  · show d'.handle.client.nextStreamId = d.handle.client.nextStreamId
    rw [hc]
  · rw [hl]
    exact d.noAllocation
  · rw [hpending]
    exact fun id hid => hid
  · rw [hpending, hc, hr]

theorem Inv.leave (h : d.Inv) (hx : d.entrants.lookup t = some x) (hp : x.permit = true)
    (allocations : List (Except MuxError ℕ))
    (halloc : ∃ k, allocations = d.allocations ++ replicate k (.error .streamIdExhausted) ∧
      (0 < k → 2 ^ 32 ≤ d.next + 2)) : Inv { d.leave t with allocations := allocations } := by
  have hone : one Entrant.permit (d.entrants.lookup t) = 1 := by
    rw [hx]
    show (if x.permit = true then 1 else 0) = 1
    rw [if_pos hp]
  have hslots : 0 < d.handle.slots := by
    have hcount := count_set Entrant.permit d.entrants t none
    have hnone : one Entrant.permit none = 0 := rfl
    rw [hone, hnone] at hcount
    rw [h.slots]
    omega
  have hcase : ({ d.leave t with allocations := allocations } : Admission).pending = d.pending ∨
      ({ d.leave t with allocations := allocations } : Admission).pending = none := by
    by_cases hadm : d.admission = some t
    · refine .inr ?_
      show ((if d.admission = some t then none else d.admission).bind _).bind _ = none
      rw [if_pos hadm]
      rfl
    · exact .inl (pending_set (y := none) rfl (if_neg hadm) hadm)
  refine h.move (y := none) rfl ?_ ?_ (fun x ask hnone => by cases hnone) ?_ rfl halloc ?_ ?_
  · show (if d.admission = some t then none else d.admission) = some t ↔ false = true
    split
    · simp
    · rename_i hadm
      exact ⟨fun e => absurd e hadm, fun e => by cases e⟩
  · intro t' hne
    show (if d.admission = some t then none else d.admission) = some t' ↔ _
    split
    · rename_i hadm
      rw [hadm]
      exact ⟨(fun e => by cases e), fun e => absurd (Option.some.inj e).symm hne⟩
    · exact Iff.rfl
  · rw [hone]
    show d.handle.slots - 1 + 1 = d.handle.slots + 0
    omega
  · rcases hcase with hcase | hcase
    · rw [hcase]
      exact fun id hid => hid
    · rw [hcase]
      intro id hid
      cases hid
  · rcases hcase with hcase | hcase
    · rw [hcase]
      exact Sublist.refl _
    · rw [hcase]
      exact Sublist.append_left (nil_sublist _) _

theorem Inv.session (h : d.Inv) (ha : a.isSession = true)
    (hs : d.handle.step limits caps a = some h') :
    Inv { d with handle := h', received := d.received ++ d.handle.taken a } := by
  obtain ⟨hstreams, hnext, hslots⟩ := Handle.step_session ha hs
  refine ⟨h.holder, h.valid, hslots.trans h.slots, ?_, ?_, ?_, ?_, ?_⟩
  · show h'.client.nextStreamId % 2 = 1
    rw [hnext]
    exact h.odd
  · show h'.client.nextStreamId < 2 ^ 32
    rw [hnext]
    exact h.bound
  · obtain ⟨m, hm⟩ := h.counted
    refine ⟨m, ?_⟩
    show d.allocations = (oddIds (h'.client.nextStreamId / 2)).map .ok ++ _ ∧
      (_ → _ ≤ h'.client.nextStreamId + 2)
    rw [hnext]
    exact hm
  · intro id hid
    exact (h.fresh id hid).trans hnext.symm
  · show (newStreams (d.received ++ d.handle.taken a ++ h'.client.commands) ++ _).Sublist
      (oddIds (h'.client.nextStreamId / 2))
    rw [hnext, append_assoc, newStreams_append, hstreams, ← newStreams_append]
    exact h.used

theorem Inv.allocate (h : d.Inv) (hx : d.entrants.lookup t = some (.locked ask))
    (hroom : d.next + 2 < 2 ^ 32) :
    Inv { d with
      handle := d.handle.withNext (d.next + 2)
      entrants := d.entrants.set t (some (.sending ask d.next))
      allocations := d.allocations ++ [.ok d.next] } := by
  have hadm : d.admission = some t := (h.admission_eq hx).mpr rfl
  have hpending : d.pending = none := pending_of_lookup hadm hx
  have hodd := h.odd
  have hhalf : (d.next + 2) / 2 = d.next / 2 + 1 := by omega
  have hid : 2 * (d.next / 2) + 1 = d.next := by omega
  have hpending' : Admission.pending { d with
      handle := d.handle.withNext (d.next + 2)
      entrants := d.entrants.set t (some (.sending ask d.next))
      allocations := d.allocations ++ [.ok d.next] } = some d.next :=
    pending_set_self (x := .sending ask d.next) rfl hadm
  refine ⟨h.holder_set (t := t) (y := some (.sending ask d.next)) rfl
      ⟨fun _ => rfl, fun _ => hadm⟩ (fun _ _ => Iff.rfl),
    h.valid_set (t := t) (y := some (.sending ask d.next)) rfl ?_, ?_, ?_, hroom, ?_, ?_, ?_⟩
  · intro x ask' hx' hask
    cases hx'
    cases hask
    exact h.valid t _ _ hx rfl
  · have hcount := count_set Entrant.permit d.entrants t (some (.sending ask d.next))
    rw [hx] at hcount
    have hone : one Entrant.permit (some (.locked ask)) = 1 := rfl
    have hone' : one Entrant.permit (some (.sending ask d.next)) = 1 := rfl
    rw [hone, hone'] at hcount
    show d.handle.slots = count Entrant.permit (d.entrants.set t _)
    rw [h.slots]
    omega
  · show (d.next + 2) % 2 = 1
    omega
  · obtain ⟨m, hm, hfull⟩ := h.counted
    have hm0 : m = 0 := by
      by_contra hm0
      have := hfull (Nat.pos_of_ne_zero hm0)
      omega
    refine ⟨0, ?_, fun hpos => absurd hpos (Nat.lt_irrefl 0)⟩
    show d.allocations ++ [.ok d.next] = (oddIds ((d.next + 2) / 2)).map .ok ++ []
    rw [hm, hm0, hhalf, oddIds_succ, hid]
    simp
  · rw [hpending']
    intro id hid
    cases hid
    rfl
  · rw [hpending']
    show (newStreams (d.received ++ d.handle.client.commands) ++ [d.next]).Sublist
      (oddIds ((d.next + 2) / 2))
    have hused := h.used
    rw [hpending] at hused
    rw [hhalf, oddIds_succ, hid]
    refine Sublist.append ?_ (Sublist.refl _)
    simpa using hused

theorem Inv.send (h : d.Inv) (hx : d.entrants.lookup t = some (.sending ask id))
    (hc : d.handle.client.send caps (ask.command id) = some c) :
    Inv { d with
      handle := ⟨c, d.handle.slots - 1, d.handle.callers.set id (some ask.caller)⟩
      entrants := d.entrants.set t (some .sent) } := by
  have hadm : d.admission = some t := (h.admission_eq hx).mpr rfl
  have hpending : d.pending = some id := pending_of_lookup hadm hx
  obtain ⟨-, rfl⟩ := Handle.send_cases hc
  have hpending' : Admission.pending { d with
      handle := ⟨{ d.handle.client with commands := d.handle.client.commands ++ [ask.command id] },
        d.handle.slots - 1, d.handle.callers.set id (some ask.caller)⟩
      entrants := d.entrants.set t (some .sent) } = none :=
    pending_set_self (x := .sent) rfl hadm
  refine h.move (t := t) (y := some .sent) rfl ⟨fun _ => rfl, fun _ => hadm⟩ (fun _ _ => Iff.rfl) ?_ ?_ rfl
    d.noAllocation ?_ ?_
  · intro x ask' hx' hask
    cases hx'
    cases hask
  · have hcount := count_set Entrant.permit d.entrants t none
    rw [hx] at hcount ⊢
    have hone : one Entrant.permit (some (.sending ask id)) = 1 := rfl
    have hnone : one Entrant.permit none = 0 := rfl
    have hsent : one Entrant.permit (some .sent) = 0 := rfl
    have hslots := h.slots
    rw [hone] at hcount ⊢
    rw [hsent]
    show d.handle.slots - 1 + 1 = d.handle.slots + 0
    omega
  · rw [hpending']
    intro id' hid
    cases hid
  · rw [hpending', hpending]
    show (newStreams (d.received ++ (d.handle.client.commands ++ [ask.command id])) ++ []).Sublist
      (newStreams (d.received ++ d.handle.client.commands) ++ [id])
    have hnew : newStreams [ask.command id] = [id] := by cases ask <;> rfl
    rw [← append_assoc, newStreams_append, hnew, append_nil]

theorem Inv.step {act : AdmissionAct} (h : d.Inv) (hs : d.step limits caps act = some d') :
    d'.Inv := by
  cases act with
  | session a =>
    obtain ⟨ha, hs⟩ := ite_none_right_eq_some.mp hs
    obtain ⟨h', hh, rfl⟩ := map_eq_some_iff.mp hs
    exact h.session ha hh
  | enter t ask =>
    obtain ⟨hcond, hs⟩ := ite_none_right_eq_some.mp hs
    rw [Bool.and_eq_true, isNone_iff_eq_none] at hcond
    cases hs
    refine h.stroll (t := t) (y := some (.slot ask)) ?_ rfl rfl rfl ?_ ?_ rfl rfl rfl
    · rw [hcond.1]
      rfl
    · intro x ask' hx hask
      cases hx
      cases hask
      exact hcond.2
    · rw [hcond.1]
      rfl
  | acquire t =>
    simp only [Admission.step] at hs
    split at hs
    · rename_i ask hx
      obtain ⟨h', hh, rfl⟩ := map_eq_some_iff.mp hs
      obtain ⟨-, hh⟩ := ite_none_right_eq_some.mp hh
      cases hh
      refine h.stroll (t := t) (y := some (.lock ask)) ?_ rfl rfl rfl ?_ ?_ rfl rfl rfl
      · rw [hx]
        rfl
      · intro x ask' hx' hask
        cases hx'
        cases hask
        exact h.valid t _ _ hx rfl
      · rw [hx]
        rfl
    · cases hs
  | lock t =>
    simp only [Admission.step] at hs
    split at hs
    · rename_i ask hx hadm
      cases hs
      have hpending : d.pending = none := by
        unfold pending
        rw [hadm]
        rfl
      have hpending' : Admission.pending { d with
          admission := some t, entrants := d.entrants.set t (some (.locked ask)) } = none :=
        pending_set_self (x := .locked ask) rfl rfl
      refine h.move (t := t) (y := some (.locked ask)) rfl ⟨fun _ => rfl, fun _ => rfl⟩ ?_ ?_ ?_ rfl
        d.noAllocation ?_ ?_
      · intro t' hne
        rw [hadm]
        exact ⟨fun e => absurd (Option.some.inj e).symm hne, fun e => by cases e⟩
      · intro x ask' hx' hask
        cases hx'
        cases hask
        exact h.valid t _ _ hx rfl
      · rw [hx]
        rfl
      · rw [hpending']
        intro id hid
        cases hid
      · rw [hpending', hpending]
    · cases hs
  | allocate t =>
    simp only [Admission.step, allocateStreamId] at hs
    split at hs
    · rename_i hx
      split at hs
      · rename_i heq
        split at heq
        · rename_i hroom
          cases heq
          cases hs
          exact h.allocate hx hroom
        · cases heq
      · rename_i heq
        split at heq
        · cases heq
        rename_i hroom
        cases heq
        cases hs
        refine h.leave hx rfl _ ⟨1, rfl, fun _ => ?_⟩
        exact Nat.le_of_not_lt hroom
    · cases hs
  | send t =>
    simp only [Admission.step] at hs
    split at hs
    · rename_i hx
      obtain ⟨c, hc, rfl⟩ := map_eq_some_iff.mp hs
      exact h.send hx hc
    · cases hs
  | release t =>
    simp only [Admission.step] at hs
    split at hs
    · rename_i hx
      cases hs
      have hadm : d.admission = some t := (h.admission_eq hx).mpr rfl
      have hpending : d.pending = none := pending_of_lookup hadm hx
      refine h.move (t := t) (y := none) rfl ?_ ?_ ?_ ?_ rfl d.noAllocation ?_ ?_
      · exact ⟨(fun e => by cases e), fun e => by cases e⟩
      · intro t' hne
        rw [hadm]
        exact ⟨(fun e => by cases e), fun e => absurd (Option.some.inj e).symm hne⟩
      · intro x ask hx'
        cases hx'
      · rw [hx]
        rfl
      · intro id hid
        cases hid
      · rw [hpending]
        exact Sublist.refl _
    · cases hs
  | giveUp t =>
    simp only [Admission.step] at hs
    split at hs
    · rename_i hx
      cases hs
      refine h.stroll (t := t) (y := none) ?_ rfl rfl rfl ?_ ?_ rfl rfl rfl
      · rw [hx]
        rfl
      · intro x ask' hx'
        cases hx'
      · rw [hx]
        rfl
    · rename_i hx
      cases hs
      exact h.leave hx rfl d.allocations d.noAllocation
    · rename_i hx
      cases hs
      exact h.leave hx rfl d.allocations d.noAllocation
    · cases hs

theorem inv_of_reachable (h : Reachable (Admission.step limits caps) Admission.start d) : d.Inv :=
  h.invariant Inv.start fun _ _ _ hd hs => hd.step hs

/-- However the callers interleave: `allocate_stream_id` returns 1, 3, 5 and so on, and only the
error once the last identifier is gone; the creating commands have identifiers among these in
rising order. -/
theorem streams_rise (limits : NegotiatedLimits) (caps : Caps) {d : Admission}
    (h : Reachable (Admission.step limits caps) Admission.start d) :
    (newStreams (d.received ++ d.handle.client.commands)).Pairwise (· < ·) ∧
    (∀ id ∈ newStreams (d.received ++ d.handle.client.commands), id % 2 = 1 ∧ id < 2 ^ 32 - 1) ∧
    ∃ n m, d.allocations = (List.range n).map (fun i => .ok (2 * i + 1)) ++
        replicate m (.error .streamIdExhausted) ∧
      n < 2 ^ 31 ∧ (0 < m → n = 2 ^ 31 - 1) ∧
      ∀ id ∈ newStreams (d.received ++ d.handle.client.commands), .ok id ∈ d.allocations := by
  have hinv := inv_of_reachable h
  have hodd := hinv.odd
  have hbound := hinv.bound
  have hsub : (newStreams (d.received ++ d.handle.client.commands)).Sublist (oddIds (d.next / 2)) :=
    (List.sublist_append_left _ _).trans hinv.used
  obtain ⟨m, hm, hfull⟩ := hinv.counted
  refine ⟨(oddIds_rising _).sublist hsub, ?_, d.next / 2, m, ?_, by omega, ?_, ?_⟩
  · intro id hid
    obtain ⟨i, hi, rfl⟩ := List.mem_map.mp (hsub.subset hid)
    have hi' := List.mem_range.mp hi
    omega
  · rw [hm, oddIds, List.map_map]
    rfl
  · intro hpos
    have := hfull hpos
    omega
  · intro id hid
    rw [hm]
    exact List.mem_append_left _ (List.mem_map_of_mem (hsub.subset hid))

def timedOutRun : List AdmissionAct :=
  [.enter 0 (.resolve ['a'] 80), .enter 1 (.resolve ['b'] 80), .acquire 0, .lock 0, .allocate 0,
    .giveUp 0, .acquire 1, .lock 1, .allocate 1, .send 1, .release 1, .session (.client .command)]

theorem streams_rise_timedOut :
    ∃ d, exec (Admission.step oneStream smallCaps) start timedOutRun = some d ∧
      newStreams d.received = [3] ∧ .ok 3 ∈ d.allocations := by
  have hrun : (exec (Admission.step oneStream smallCaps) start timedOutRun).map
      (fun d => newStreams d.received) = some [3] := by decide +kernel
  obtain ⟨d, hd, hreceived⟩ := Option.map_eq_some_iff.mp hrun
  obtain ⟨-, -, n, m, -, -, -, hmem⟩ :=
    streams_rise oneStream smallCaps (reachable_exec timedOutRun (.start _) hd)
  refine ⟨d, hd, hreceived, hmem 3 ?_⟩
  rw [newStreams_append, hreceived]
  exact List.mem_cons_self ..

end Admission

end Alighieri.Rdp
