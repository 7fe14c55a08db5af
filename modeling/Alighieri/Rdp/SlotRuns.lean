import Alighieri.Rdp.SlotSteps

/-!
# Slots along a run

No step makes a permit, so the semaphore's bound holds for the permits outstanding. In runs in
which nobody lets go of a permit that a stream still needs, no caller that has a slot is refused
for want of room.
-/

namespace Alighieri.Rdp
open Net Lts List Option Table Table ClientStreamState Client

variable {f : Frame} {left : Option Caller × Bool} {reply : Option Reply} {asked : Option Bool}
  {r : ClientHandled} {cmd : ClientCommand} {c : Caller} {i id : ℕ} {act : HandleAct}

/-! ### No step makes a permit -/

section Permits

variable {limits : NegotiatedLimits} {full alive : Bool} {x : Entry ClientStreamState}
  {r : ClientHandled}

theorem ClientCommand.Refused.permit_le {a : Reply} (h : cmd.Refused full x a) :
    one Reply.permit (some a) ≤ one ClientCommand.permit (some cmd) := by
  cases cmd with
  | openTo =>
    cases a with
    | openFailed => cases h.1; exact Nat.le_refl _
    | _ => exact h.elim
  | openIp =>
    cases a with
    | openFailed => cases h.2; exact Nat.zero_le _
    | _ => exact h.elim
  | resolve | close => cases a <;> first | exact Nat.zero_le _ | exact h.elim

theorem command_permits (h : handleClientCommand full x cmd = .ok r) :
    one permit r.entry.state + one Reply.permit r.reply ≤
      one permit x.state + one ClientCommand.permit (some cmd) := by
  cases handleClientCommand_case h with
  | @keep _ reply hr =>
    refine Nat.add_le_add_left ?_ _
    cases reply with
    | none => exact Nat.zero_le _
    | some a => exact (hr a rfl).permit_le
  | resolve | openTo | openIp => exact Nat.le_add_left _ _
  | closeOpened hx =>
    rw [hx]
    exact Nat.le_refl _
  | @closeEarly _ _ reply permit hx hst hpermit hr =>
    rw [hx]
    cases permit with
    | false => rcases hr with rfl | rfl | rfl <;> exact Nat.zero_le _
    | true =>
      obtain ⟨candidates, rfl⟩ := hpermit rfl
      rcases hr with rfl | rfl | rfl <;> exact Nat.le_refl _

theorem frame_permits (h : handleClientFrame limits alive x f = .ok r) :
    one permit r.entry.state + one Reply.permit r.reply ≤
      one permit x.state := by
  cases handleClientFrame_case h with
  | flow | late => exact Nat.le_refl _
  | opened hx =>
    rw [hx]
    cases alive <;> exact Nat.le_refl _
  | @openFailed _ _ _ candidates _ hx =>
    rw [hx]
    cases candidates <;> exact (Nat.zero_add _).le
  | @closeEarly _ _ st hx =>
    rw [hx]
    cases st <;> first | exact (Nat.zero_add _).le | exact Nat.zero_le _
  | _ => exact Nat.zero_le _

theorem event_permits (x : Entry ClientStreamState) (w : WorkerEvent) :
    one permit (clientWorkerEvent x w).state ≤
      one permit x.state := by
  obtain ⟨state, stream⟩ := x
  by_cases hopen : ∃ permit, state = some (.opened permit)
  · obtain ⟨permit, rfl⟩ := hopen
    cases w <;> cases permit <;> first | exact Nat.le_refl _ | exact Nat.zero_le _
  · rw [event_state (fun permit hstate => hopen ⟨permit, hstate⟩)]

theorem mails_permits (reply : Option Reply) (caller : Option Caller) :
    one Caller.permit (Caller.mails reply caller) ≤
      one Caller.permit caller + one Reply.permit reply := by
  cases reply with
  | none => exact Nat.le_refl _
  | some =>
    cases caller with
    | none => exact Nat.zero_le _
    | some c =>
      cases c with
      | opening candidates mail =>
        cases mail with
        | none => exact Nat.le_add_left _ _
        | some r => exact Nat.le_add_right _ _
      | resolving mail | openingIp mail => cases mail <;> exact Nat.le_add_right _ _
      | _ => exact Nat.le_add_right _ _

theorem receive_permits (h : c.receive = some left) :
    one Caller.permit left.1 ≤ one Caller.permit (some c) := by
  cases c with
  | resolving mail =>
    cases mail with
    | none => cases h
    | some reply => cases reply <;> cases h <;> first | exact Nat.le_refl _ | exact Nat.zero_le _
  | openingIp mail =>
    cases mail with
    | none => cases h
    | some reply => cases reply <;> cases h <;> exact Nat.le_refl _
  | opening candidates mail =>
    cases mail with
    | none => cases h
    | some reply =>
      cases reply with
      | openFailed =>
        simp only [Caller.receive] at h
        split at h <;> cases h <;> exact Nat.le_refl _
      | opened =>
        cases h
        exact Nat.zero_le _
      | _ => cases h
  | _ => cases h

theorem giveUp_permits (c : Caller) : one Caller.permit c.giveUp.1 = 0 := by
  cases c <;> rfl

theorem Guarded.permits {armed : Bool} {q q' : List ClientCommand} (hg : Guarded i armed q q') :
    q'.countP ClientCommand.permit = q.countP ClientCommand.permit := by
  rcases hg with rfl | ⟨-, rfl⟩
  · rfl
  · rw [countP_append]
    rfl

theorem post_count (callers : Table ℕ Caller) (i : ℕ) (reply : Option Reply) :
    ((reply.map (Prod.mk i)).toList.foldl Handle.post callers).count Caller.permit ≤
      callers.count Caller.permit + one Reply.permit reply := by
  cases reply with
  | none => exact Nat.le_refl _
  | some reply =>
    have hset := count_set Caller.permit callers i
      ((callers.lookup i).map (Caller.mailed reply))
    have hmails := mails_permits (some reply) (callers.lookup i)
    show (callers.set i ((callers.lookup i).map (Caller.mailed reply))).count _ ≤ _
    simp only [Caller.mails] at hmails
    omega

end Permits

namespace Handle

section Outstanding

variable {limits : NegotiatedLimits} {caps : Caps} {h : Handle}

theorem absorb_count {c : Client}
    (hreply : c.replies = h.client.replies ++ (reply.map (Prod.mk i)).toList) :
    (h.absorb c).callers.count Caller.permit ≤
      h.callers.count Caller.permit + one Reply.permit reply := by
  show ((c.replies.drop h.client.replies.length).foldl post h.callers).count _ ≤ _
  rw [hreply, drop_left]
  exact post_count h.callers i reply

theorem outstanding_absorb (h : Handle) (c : Client) :
    (h.absorb c).outstanding = h.slots + (h.absorb c).callers.count Caller.permit +
      c.commands.countP ClientCommand.permit + c.ep.streams.count permit := rfl

theorem countP_cons_one (cmd : ClientCommand) (rest : List ClientCommand) :
    (cmd :: rest).countP ClientCommand.permit =
      rest.countP ClientCommand.permit + one ClientCommand.permit (some cmd) :=
  countP_cons

theorem absorb_outstanding {c : Client} (hs : h.client.Shift limits asked c)
    (hrun : c.ep.ended = none) : (h.absorb c).outstanding ≤ h.outstanding := by
  rw [outstanding_absorb, outstanding]
  cases hs with
  | quiet streams commands replies => rw [absorb_quiet replies, streams, commands]
  | @command cmd rest r queued hr streams commands replies =>
    have hcallers := absorb_count replies
    have hstreams := count_set permit h.client.ep.streams
      (commandId cmd) r.entry.state
    have hpermits := command_permits hr
    have hcommands := countP_cons_one cmd rest
    simp only [Endpoint.entry] at hpermits
    rw [streams, commands, queued]
    omega
  | @frame alive f rest r told arrived hr streams commands replies =>
    have hcallers := absorb_count replies
    have hstreams := count_set permit h.client.ep.streams f.streamId
      r.entry.state
    have hpermits := frame_permits hr
    simp only [Endpoint.entry] at hpermits
    rw [streams, commands]
    omega
  | event w streams commands replies =>
    have hstreams := count_set permit h.client.ep.streams w.id
      (clientWorkerEvent (h.client.ep.entry w.id) w).state
    have hpermits := event_permits (h.client.ep.entry w.id) w
    simp only [Endpoint.entry] at hpermits hstreams
    rw [absorb_quiet replies, streams, commands]
    simp only [Endpoint.entry]
    omega
  | failed ended => exact absurd hrun ended

theorem Asks.permits {cmd : ClientCommand} (ha : Asks id act cmd c) :
    one Caller.permit (some c) + [cmd].countP ClientCommand.permit = 1 := by
  cases ha <;> rfl

theorem submit_permits (i : ℕ) (candidates : List SocketAddr) (address : SocketAddr)
    (permit : Bool) : [ClientCommand.openTo i (canonicalizeAddress address) permit].countP
        ClientCommand.permit + one Caller.permit (some (.opening candidates none)) =
      one Caller.permit (some (.offering candidates address permit)) := by
  cases permit <;> rfl

/- The permits after a step that sets one caller and leaves the map alone. -/
theorem outstanding_set {ep : Endpoint ClientStreamState}
    (streams : ep.streams = h.client.ep.streams) {next slots : ℕ} {q : List ClientCommand}
    {caller : Option Caller} (hle : h.outstanding ≤ limits.maxStreams)
    (hset : slots + q.countP ClientCommand.permit + one Caller.permit caller ≤
      h.slots + h.client.commands.countP ClientCommand.permit +
        one Caller.permit (h.callers.lookup i)) :
    Handle.outstanding ⟨{ h.client with ep := ep, nextStreamId := next, commands := q }, slots,
      h.callers.set i caller⟩ ≤ limits.maxStreams := by
  have hcallers := count_set Caller.permit h.callers i caller
  unfold outstanding at hle ⊢
  dsimp only
  rw [streams]
  omega

/-- The semaphore never has more permits out than it was made with. -/
theorem step_outstanding {h' : Handle} (hs : h.step limits caps act = some h')
    (hrun : h'.client.ep.ended = none) (hle : h.outstanding ≤ limits.maxStreams) :
    h'.outstanding ≤ limits.maxStreams := by
  cases step_stepped hs with
  | client drives hc =>
    obtain ⟨asked, hshift, -⟩ := drives.shift hc
    exact (absorb_outstanding hshift hrun).trans hle
  | @same ep streams =>
    show h.slots + _ + _ + ep.streams.count _ ≤ _
    rw [streams]
    exact hle
  | acquire hact free =>
    unfold outstanding at free ⊢
    dsimp only
    omega
  | leave =>
    unfold outstanding at hle ⊢
    dsimp only
    omega
  | ask slots asks =>
    refine outstanding_set rfl hle ?_
    have hone := asks.permits
    rw [countP_append]
    omega
  | finish streams ended caller done guarded =>
    refine outstanding_set streams hle ?_
    rw [caller, guarded.permits]
    apply Nat.add_le_add_left
    rcases done with hrec | ⟨rfl, rfl⟩
    · exact receive_permits hrec
    · exact (giveUp_permits _).trans_le (Nat.zero_le _)
  | offer address caller offers =>
    obtain ⟨candidates, permit, rfl, -, rfl⟩ := offer_cases offers
    refine outstanding_set rfl hle ?_
    rw [caller]
    exact Nat.le_refl _
  | @submit i candidates address permit caller =>
    refine outstanding_set rfl hle ?_
    have hone := submit_permits i candidates address permit
    rw [caller, countP_append]
    omega

end Outstanding

end Handle

/-! ### Every patient run -/

def Reply.refuses : Reply → Bool
  | .resolveFailed .resourceLimit | .openFailed .resourceLimit _ => true
  | _ => false

theorem frame_reply {limits : NegotiatedLimits} {alive : Bool} {x : Entry ClientStreamState}
    (h : handleClientFrame limits alive x f = .ok r) : r.reply.any Reply.refuses = false := by
  cases handleClientFrame_case h with
  | opened => cases alive <;> rfl
  | @closeEarly _ _ st => cases st <;> rfl
  | _ => rfl

theorem ClientCommand.Refused.full {full : Bool} {x : Entry ClientStreamState} {a : Reply}
    (h : cmd.Refused full x a) (ha : a.refuses = true) : creates cmd = true ∧ full = true := by
  cases cmd with
  | resolve => cases a <;> first | exact ⟨rfl, h⟩ | exact h.elim
  | openIp => cases a <;> first | exact ⟨rfl, h.1⟩ | exact h.elim
  | openTo =>
    cases a with
    | openFailed error => cases error <;> first | exact absurd rfl h.2.1 | cases ha
    | _ => exact h.elim
  | close => exact h.elim

theorem command_reply {full : Bool} {x : Entry ClientStreamState}
    (hroom : creates cmd = true → full = false)
    (h : handleClientCommand full x cmd = .ok r) : r.reply.any Reply.refuses = false := by
  cases handleClientCommand_case h with
  | @keep _ reply hr =>
    cases reply with
    | none => rfl
    | some a =>
      refine Bool.eq_false_iff.mpr fun ha => ?_
      obtain ⟨hcreates, hfull⟩ := (hr a rfl).full ha
      rw [hroom hcreates] at hfull
      cases hfull
  | resolve | openTo | openIp | closeOpened => rfl
  | closeEarly permit hx hst hpermit hr => rcases hr with rfl | rfl | rfl <;> rfl

theorem Backed.state_of_creates {x : Ledger} (hb : Backed id x) (hmem : cmd ∈ x.queued)
    (hcreates : creates cmd = true) : x.state = none := by
  have hno : ∀ {q : List ClientCommand}, Closes id q → cmd ∈ q → False := by
    intro q hq hmem
    rw [hq cmd hmem] at hcreates
    cases hcreates
  cases hb with
  | asked | askedIp | free => rfl
  | resolving | held => cases hmem
  | sent mem state_eq attends =>
    rcases mem_cons.mp hmem with rfl | hmem
    · cases hcreates
    · rcases attends with ⟨-, rfl⟩ | ⟨-, closes⟩
      · cases hmem
      · exact (hno closes hmem).elim
  | opening attends =>
    rcases attends with ⟨-, rfl⟩ | ⟨-, closes⟩
    · cases hmem
    · exact (hno closes hmem).elim
  | owned state_eq gone closes => exact (hno closes hmem).elim

namespace Handle

/-- What holds in every patient run as long as the session lasts. -/
structure Sound (limits : NegotiatedLimits) (h : Handle) : Prop where
  backed : h.client.ep.ended = none → ∀ id, Backed id (h.ledger id)
  unused : h.client.ep.ended = none → ∀ id, h.client.nextStreamId ≤ id →
    h.ledger id = ⟨none, none, []⟩
  bounded : h.client.ep.ended = none → h.outstanding ≤ limits.maxStreams
  unrefused : ∀ p ∈ h.client.replies, p.2.refuses = false

def holders (h : Handle) : List ℕ :=
  h.callers.keysWhere Caller.permit ++
    ((h.client.commands.filter ClientCommand.permit).map commandId ++
      h.client.ep.streams.keysWhere permit)

theorem holders_le (h : Handle) : h.holders.length ≤ h.outstanding := by
  unfold holders outstanding Table.count
  rw [length_append, length_append, length_map, countP_eq_length_filter]
  omega

theorem holder_of_caller {h : Handle} (hc : (h.ledger id).caller = some c) (hp : c.permit = true) :
    id ∈ h.holders :=
  mem_append_left _ (mem_keysWhere hc hp)

theorem holder_of_state {h : Handle} {st : ClientStreamState}
    (hst : (h.ledger id).state = some st) (hp : st.permit = true) : id ∈ h.holders :=
  mem_append_right _ (mem_append_right _ (mem_keysWhere hst hp))

theorem holder_of_command {h : Handle} (hcmd : cmd ∈ (h.ledger id).queued)
    (hp : cmd.permit = true) : id ∈ h.holders := by
  obtain ⟨hmem, hid⟩ := mem_filter.mp hcmd
  refine mem_append_right _ (mem_append_left _ (mem_map.mpr ⟨cmd, ?_, ?_⟩))
  · exact mem_filter.mpr ⟨hmem, hp⟩
  · exact of_decide_eq_true hid

theorem holder_of_backed {h : Handle} (hb : Backed id (h.ledger id))
    (hneeds : (h.ledger id).state ≠ none ∨
      ∃ cmd ∈ (h.ledger id).queued, creates cmd = true) : id ∈ h.holders := by
  have hcaller : ∀ c, (h.ledger id).caller = some c → c.permit = true → id ∈ h.holders :=
    fun _ => holder_of_caller
  have hstate : ∀ st, (h.ledger id).state = some st → st.permit = true → id ∈ h.holders :=
    fun _ => holder_of_state
  have hcommand : ∀ cmd, cmd ∈ (h.ledger id).queued → cmd.permit = true → id ∈ h.holders :=
    fun _ => holder_of_command
  generalize h.ledger id = x at hb hneeds hcaller hstate hcommand
  cases hb with
  | asked | resolving => exact hcaller _ rfl rfl
  | held keeps => exact hcaller _ rfl (by cases keeps <;> rfl)
  | sent | askedIp => exact hcommand _ mem_cons_self rfl
  | opening => exact hstate _ rfl rfl
  | owned state_eq => rcases state_eq with rfl | rfl <;> exact hstate _ rfl rfl
  | free settled closes =>
    rcases hneeds with hneeds | ⟨cmd, hmem, hcreates⟩
    · exact absurd rfl hneeds
    · rw [closes cmd hmem] at hcreates
      cases hcreates

theorem keys_subset {h : Handle} (hb : ∀ id, Backed id (h.ledger id)) :
    h.client.ep.streams.keys ⊆ h.holders := by
  intro id hid
  have hsome := (mem_keys_iff h.client.ep.streams id).mp hid
  refine holder_of_backed (hb id) (.inl ?_)
  intro hnone
  rw [show h.client.ep.streams.lookup id = none from hnone] at hsome
  cases hsome

/-- The streams in the map are no more than the permits outstanding. -/
theorem streams_le {h : Handle} (hb : ∀ id, Backed id (h.ledger id)) :
    h.client.ep.streams.size ≤ h.outstanding :=
  ((h.client.ep.streams.nodupKeys.subperm (keys_subset hb)).length_le).trans h.holders_le

theorem streams_lt {h : Handle} (hb : ∀ id, Backed id (h.ledger id)) {rest : List ClientCommand}
    (hq : h.client.commands = cmd :: rest) (hcreates : creates cmd = true) :
    h.client.ep.streams.size < h.outstanding := by
  have hmem : cmd ∈ (h.ledger (commandId cmd)).queued := by
    refine mem_filter.mpr ⟨?_, decide_eq_true rfl⟩
    rw [hq]
    exact mem_cons_self
  have hnew : commandId cmd ∉ h.client.ep.streams.keys := by
    intro hkey
    have hsome := (mem_keys_iff h.client.ep.streams (commandId cmd)).mp hkey
    have hnone : (h.ledger (commandId cmd)).state = none :=
      (hb (commandId cmd)).state_of_creates hmem hcreates
    rw [show h.client.ep.streams.lookup (commandId cmd) = none from hnone] at hsome
    cases hsome
  have hsub : commandId cmd :: h.client.ep.streams.keys ⊆ h.holders :=
    cons_subset.mpr ⟨holder_of_backed (hb _) (.inr ⟨cmd, hmem, hcreates⟩), keys_subset hb⟩
  have hle := ((nodup_cons.mpr ⟨hnew, h.client.ep.streams.nodupKeys⟩).subperm hsub).length_le
  rw [length_cons] at hle
  exact hle.trans h.holders_le

section Runs

variable {limits : NegotiatedLimits} {caps : Caps} {h h' : Handle}

/- What the invariant reads of the client besides the ledgers and the permits. -/
structure Onward (h h' : Handle) : Prop where
  running : h'.client.ep.ended = none → h.client.ep.ended = none
  next : h'.client.ep.ended = none → h.client.nextStreamId ≤ h'.client.nextStreamId
  unrefused : (∀ p ∈ h.client.replies, p.2.refuses = false) →
    ∀ p ∈ h'.client.replies, p.2.refuses = false

theorem Onward.same (hended : h'.client.ep.ended = h.client.ep.ended)
    (hnext : h.client.nextStreamId ≤ h'.client.nextStreamId)
    (hreplies : h'.client.replies = h.client.replies) : Onward h h' where
  running := fun hrun => hended.symm.trans hrun
  next := fun _ => hnext
  unrefused := by
    rw [hreplies]
    exact id

theorem unrefused_append {replies : List (ℕ × Reply)} (h : ∀ p ∈ replies, p.2.refuses = false)
    (hr : reply.any Reply.refuses = false) :
    ∀ p ∈ replies ++ (reply.map (Prod.mk i)).toList, p.2.refuses = false := by
  intro p hp
  rcases mem_append.mp hp with hp | hp
  · exact h p hp
  · cases reply with
    | none => cases hp
    | some =>
      rw [mem_singleton.mp hp]
      exact hr

theorem Sound.absorb {c : Client} (hsound : h.Sound limits) (hs : h.client.Shift limits asked c) :
    Onward h (h.absorb c) := by
  cases hs with
  | quiet streams commands replies next ended => exact .same ended next replies
  | @command cmd rest r queued hr streams commands replies next running =>
    refine ⟨fun _ => running, fun _ => next.ge, ?_⟩
    intro hall
    show ∀ p ∈ c.replies, _
    rw [replies]
    refine unrefused_append hall (command_reply ?_ hr)
    intro hcreates
    have hlt := streams_lt (hsound.backed running) queued hcreates
    have hle := hsound.bounded running
    exact decide_eq_false (by omega)
  | frame told arrived hr streams commands replies next running =>
    refine ⟨fun _ => running, fun _ => next.ge, ?_⟩
    intro hall
    show ∀ p ∈ c.replies, _
    rw [replies]
    exact unrefused_append hall (frame_reply hr)
  | event w streams commands replies next running =>
    refine ⟨fun _ => running, fun _ => next.ge, ?_⟩
    show _ → ∀ p ∈ c.replies, _
    rw [replies]
    exact id
  | failed ended replies =>
    refine ⟨fun hrun => absurd hrun ended, fun hrun => absurd hrun ended, ?_⟩
    show _ → ∀ p ∈ c.replies, _
    rw [replies]
    exact id

theorem Sound.onward (hsound : h.Sound limits) (hs : h.step limits caps act = some h') :
    Onward h h' := by
  cases step_stepped hs with
  | client drives hc =>
    obtain ⟨asked, hshift, -⟩ := drives.shift hc
    exact hsound.absorb hshift
  | same streams ended | finish streams ended =>
    exact .same ended (Nat.le_refl _) rfl
  | acquire | leave | offer | submit =>
    exact .same rfl (Nat.le_refl _) rfl
  | ask => exact .same rfl (Nat.le_add_right _ _) rfl

theorem Sound.start (limits : NegotiatedLimits) : Handle.start.Sound limits where
  backed := fun _ _ => .free rfl (Closes.nil _)
  unused := fun _ _ _ => rfl
  bounded := fun _ => Nat.zero_le _
  unrefused := nofun

theorem Sound.step (hsound : h.Sound limits) (hs : h.step limits caps act = some h')
    (hp : h.Patient act) : h'.Sound limits := by
  have hon := hsound.onward hs
  have hmove : h'.client.ep.ended = none → ∀ id,
      (h.ledger id).Move limits h'.client.nextStreamId id (h'.ledger id) := by
    intro hrun
    exact step_ledger hs hp hrun (hsound.unused (hon.running hrun) _ (Nat.le_refl _))
  refine ⟨?_, ?_, ?_, hon.unrefused hsound.unrefused⟩
  · intro hrun id
    exact (hsound.backed (hon.running hrun) id).move (hmove hrun id)
  · intro hrun id hid
    have hunused := hsound.unused (hon.running hrun) id ((hon.next hrun).trans hid)
    have hm := hmove hrun id
    rw [hunused] at hm
    exact unused_move hid hm
  · intro hrun
    exact step_outstanding hs hrun (hsound.bounded (hon.running hrun))

end Runs

end Handle

/-- As long as no caller lets go of a permit that its stream still needs, the map has no more
streams than there are permits outstanding, and no caller is refused with `ResourceLimit`. -/
theorem slots_back_streams (limits : NegotiatedLimits) (caps : Caps) (h : Handle)
    (hr : ReachableBy (Handle.step limits caps) Handle.Patient .start h) :
    (h.client.ep.ended = none → h.client.ep.streams.size ≤ h.outstanding) ∧
      ∀ p ∈ h.client.replies, p.2.refuses = false := by
  have hsound : h.Sound limits :=
    hr.invariant (.start limits) fun _ _ _ hs hp hstep => hs.step hstep hp
  exact ⟨fun hrun => Handle.streams_le (hsound.backed hrun), hsound.unrefused⟩

theorem slots_back_streams_asked :
    ∃ h, exec (Handle.step oneStream smallCaps) .start
        [.acquire, .resolve ['a'] 80, .client .command] = some h ∧
      h.client.ep.streams.size ≤ h.outstanding := by
  obtain ⟨h, hh, hrun⟩ : ∃ h, exec (Handle.step oneStream smallCaps) .start
      [.acquire, .resolve ['a'] 80, .client .command] = some h ∧ h.client.ep.ended = none :=
    ⟨_, rfl, rfl⟩
  have hr : ReachableBy (Handle.step oneStream smallCaps) Handle.Patient .start h := by
    refine reachableBy_exec _ ?_ .start hh
    simp [Handle.Patient]
  exact ⟨h, hh, (slots_back_streams oneStream smallCaps h hr).1 hrun⟩

def givenUpRun : List HandleAct :=
  [.acquire, .resolve ['a'] 80, .client .command, .client .resume, .giveUp 1]

def nextCallerRun : List HandleAct :=
  [.acquire, .client .command, .client (.pick false), .client .resume, .resolve ['b'] 80,
    .client .command]

/-- A caller that gives up releases its permit at once, while its stream stays in the map. With
one slot the next caller gets it and is refused. -/
theorem given_up_slot_is_reused :
    (∃ h, exec (Handle.step oneStream smallCaps) .start givenUpRun = some h ∧
      h.client.ep.ended = none ∧ h.outstanding < h.client.ep.streams.size) ∧
    ∃ h, exec (Handle.step oneStream smallCaps) .start (givenUpRun ++ nextCallerRun) = some h ∧
      h.client.ep.ended = none ∧ (3, .resolveFailed .resourceLimit) ∈ h.client.replies := by
  constructor
  · exact ⟨_, rfl, rfl, Nat.zero_lt_one⟩
  · refine ⟨_, rfl, rfl, ?_⟩
    exact List.mem_cons_of_mem _ List.mem_cons_self

end Alighieri.Rdp
