import Alighieri.Rdp.SlotBook

/-!
# What a step does to the ledgers

What the steps of the client do to the map, the commands and the replies, and from
it that every step of a patient run moves every ledger.
-/

namespace Alighieri.Rdp
open Net Lts Option Table Endpoint Client

variable {asked : Option Bool} {i id : ℕ} {cmd : ClientCommand} {h' : Handle} {c c' : Client}
  {act : HandleAct} {armed : Bool} {q q' : List ClientCommand} {reply : Option Reply}

/-- The client's steps, seen from the map, the command queue and the replies. The
handling of a frame is told whether the caller is `alive`. -/
inductive Client.Shift (limits : NegotiatedLimits) (asked : Option Bool) (c c' : Client) : Prop where
  | quiet (streams : c'.ep.streams = c.ep.streams) (commands : c'.commands = c.commands)
      (replies : c'.replies = c.replies) (next : c.nextStreamId ≤ c'.nextStreamId)
      (ended : c'.ep.ended = c.ep.ended)
  | command {cmd : ClientCommand} {rest : List ClientCommand} {r : ClientHandled}
      (queued : c.commands = cmd :: rest)
      (h : handleClientCommand (decide (limits.maxStreams ≤ c.ep.streams.size))
        (c.ep.entry (commandId cmd)) cmd = .ok r)
      (streams : c'.ep.streams = c.ep.streams.set (commandId cmd) r.entry.state)
      (commands : c'.commands = rest)
      (replies : c'.replies = c.replies ++ (r.reply.map (Prod.mk (commandId cmd))).toList)
      (next : c'.nextStreamId = c.nextStreamId) (running : c.ep.ended = none)
  | frame {alive : Bool} {f : Frame} {rest : List Frame} {r : ClientHandled}
      (told : asked = some alive) (arrived : c.ep.frames = f :: rest)
      (h : handleClientFrame limits alive (c.ep.entry f.streamId) f = .ok r)
      (streams : c'.ep.streams = c.ep.streams.set f.streamId r.entry.state)
      (commands : c'.commands = c.commands)
      (replies : c'.replies = c.replies ++ (r.reply.map (Prod.mk f.streamId)).toList)
      (next : c'.nextStreamId = c.nextStreamId) (running : c.ep.ended = none)
  | event (w : WorkerEvent)
      (streams : c'.ep.streams = c.ep.streams.set w.id
        (clientWorkerEvent (c.ep.entry w.id) w).state)
      (commands : c'.commands = c.commands) (replies : c'.replies = c.replies)
      (next : c'.nextStreamId = c.nextStreamId) (running : c.ep.ended = none)
  | failed (ended : c'.ep.ended ≠ none) (replies : c'.replies = c.replies)

theorem Client.command_shift {limits : NegotiatedLimits} (h : c.command limits = some c') :
    c.Shift limits asked c' := by
  unfold command at h
  split at h
  · rename_i hready
    obtain ⟨hrun, -⟩ := ready_iff.mp hready
    split at h
    · cases h
    rename_i cmd rest hq
    generalize hr : handleClientCommand (decide (limits.maxStreams ≤ c.ep.streams.size))
      (c.ep.entry (commandId cmd)) cmd = r at h
    cases h
    cases r with
    | ok r => exact .command hq hr rfl rfl rfl rfl hrun
    | error e => exact .failed nofun rfl
  · cases h

theorem Client.frame_shift {limits : NegotiatedLimits} {alive : Bool}
    (h : c.frame limits alive = some c') : c.Shift limits (some alive) c' := by
  unfold frame at h
  split at h
  · rename_i hready
    obtain ⟨hrun, -⟩ := ready_iff.mp hready
    split at h
    · cases h
    rename_i f rest hf
    split at h
    · cases h
      exact .quiet rfl rfl rfl (Nat.le_refl _) rfl
    · cases h
      unfold Endpoint.onPong
      split
      · exact .quiet rfl rfl rfl (Nat.le_refl _) rfl
      · exact .failed nofun rfl
    · generalize hr : handleClientFrame limits alive (c.ep.entry f.streamId) f = r at h
      cases h
      cases r with
      | ok r => exact .frame rfl hf hr rfl rfl rfl rfl hrun
      | error e => exact .failed nofun rfl
  · cases h

theorem Client.step_shift {limits : NegotiatedLimits} {caps : Caps} {act : ClientAct}
    (hact : act.isDriver = true) (h : c.step limits caps act = some c') :
    c.Shift limits none c' := by
  cases step_cases h with
  | turn hcmd ht =>
    rcases ht.kept.ended with hended | hended
    · exact .quiet ht.kept.streams rfl rfl (Nat.le_refl _) hended
    · exact .failed hended rfl
  | skipId => exact .quiet rfl rfl rfl (Nat.le_add_right _ _) rfl
  | command => exact command_shift h
  | event hready hw => exact .event _ rfl rfl rfl rfl (ready_iff.mp hready).1
  | resume hr hn =>
    obtain ⟨hstreams, hended | hended⟩ := resume_keeps hr
    · exact .quiet hstreams rfl rfl (Nat.le_refl _) hended
    · exact .failed hended rfl
  | _ => cases hact

/-! ### The ledgers -/

theorem queued_snoc {commands : List ClientCommand} (id : ℕ) :
    (commands ++ [cmd]).filter (fun cmd => decide (commandId cmd = id)) =
      if id = commandId cmd then
        commands.filter (fun cmd => decide (commandId cmd = id)) ++ [cmd]
      else commands.filter fun cmd => decide (commandId cmd = id) := by
  rw [List.filter_append]
  split
  · rename_i hid
    rw [List.filter_singleton, decide_eq_true hid.symm]
    rfl
  · rename_i hid
    rw [List.filter_singleton, decide_eq_false (Ne.symm hid)]
    exact List.append_nil _

theorem Guarded.queued (hg : Guarded i armed q q') :
    Guarded i armed (q.filter fun cmd => decide (commandId cmd = i))
      (q'.filter fun cmd => decide (commandId cmd = i)) := by
  rcases hg with rfl | ⟨harmed, rfl⟩
  · exact .inl rfl
  · exact .inr ⟨harmed, (queued_snoc i).trans (if_pos rfl)⟩

theorem Guarded.queued_of_ne (hg : Guarded i armed q q') (hid : id ≠ i) :
    q'.filter (fun cmd => decide (commandId cmd = id)) =
      q.filter fun cmd => decide (commandId cmd = id) := by
  rcases hg with rfl | ⟨-, rfl⟩
  · rfl
  · exact (queued_snoc id).trans (if_neg hid)

namespace Handle

/-- No caller lets go of a permit while its stream, or a command about it, is with the
driver, and no OPEN_ERROR brings a permit back to a caller that has gone. -/
def Patient (h : Handle) : HandleAct → Prop
  | .giveUp id =>
    ∀ c, h.callers.lookup id = some c → c.permit = true → (h.ledger id).Settled
  | .frame =>
    ∀ f rest code diagnostic candidates permit, h.client.ep.frames = f :: rest →
      f = .openError f.streamId code diagnostic →
      h.client.ep.streams.lookup f.streamId = some (.opening (some candidates) permit) →
      h.waits f.streamId = true
  | _ => True

theorem lookup_post (callers : Table ℕ Caller) (i : ℕ) (reply : Option Reply) (id : ℕ) :
    ((reply.map (Prod.mk i)).toList.foldl post callers).lookup id =
      if id = i then Caller.mails reply (callers.lookup id) else callers.lookup id := by
  cases reply with
  | none =>
    show callers.lookup id = _
    split <;> rfl
  | some r =>
    show (post callers (i, r)).lookup id = _
    rw [post, lookup_set]
    split
    · rename_i hid
      rw [hid]
      rfl
    · rfl

theorem absorb_caller {h : Handle}
    (hreply : c.replies = h.client.replies ++ (reply.map (Prod.mk i)).toList) (id : ℕ) :
    (h.absorb c).callers.lookup id =
      if id = i then Caller.mails reply (h.callers.lookup id) else h.callers.lookup id := by
  show ((c.replies.drop h.client.replies.length).foldl post h.callers).lookup id = _
  rw [hreply, List.drop_left]
  exact lookup_post h.callers i reply id

theorem absorb_quiet {h : Handle} (hreply : c.replies = h.client.replies) :
    (h.absorb c).callers = h.callers := by
  show (c.replies.drop h.client.replies.length).foldl post h.callers = h.callers
  rw [hreply, List.drop_length]
  rfl

theorem ledger_ext {x y : Ledger} (hs : x.state = y.state) (hc : x.caller = y.caller)
    (hq : x.queued = y.queued) : x = y := by
  cases x
  cases y
  cases hs
  cases hc
  cases hq
  rfl

section Ledgers

variable {limits : NegotiatedLimits} {caps : Caps} {h : Handle}

theorem absorb_set {state : Option ClientStreamState}
    (streams : c.ep.streams = h.client.ep.streams.set i state)
    (replies : c.replies = h.client.replies ++ (reply.map (Prod.mk i)).toList) (id : ℕ) :
    (h.absorb c).ledger id = if id = i then
        ⟨state, Caller.mails reply (h.ledger id).caller,
          c.commands.filter fun cmd => decide (commandId cmd = id)⟩
      else { h.ledger id with
        queued := c.commands.filter fun cmd => decide (commandId cmd = id) } := by
  have hcaller := absorb_caller replies id
  have hstate : c.ep.streams.lookup id = _ := streams ▸ lookup_set _ _ _ _
  split
  · rename_i hid
    exact ledger_ext (hstate.trans (if_pos hid)) (hcaller.trans (if_pos hid)) rfl
  · rename_i hid
    exact ledger_ext (hstate.trans (if_neg hid)) (hcaller.trans (if_neg hid)) rfl

theorem absorb_ledger (hs : h.client.Shift limits asked c) (hrun : c.ep.ended = none)
    (hframe : ∀ alive f rest, asked = some alive → h.client.ep.frames = f :: rest →
      alive = h.waits f.streamId ∧ ∀ code diagnostic candidates permit, f = .openError f.streamId code diagnostic →
        h.client.ep.streams.lookup f.streamId = some (.opening (some candidates) permit) →
        h.waits f.streamId = true) (id : ℕ) :
    (h.ledger id).Move limits c.nextStreamId id ((h.absorb c).ledger id) := by
  cases hs with
  | quiet streams commands replies =>
    have hsame : (h.absorb c).ledger id = h.ledger id := by
      refine ledger_ext ?_ ?_ ?_
      · show c.ep.streams.lookup id = _
        rw [streams]
        rfl
      · show (h.absorb c).callers.lookup id = _
        rw [absorb_quiet replies]
        rfl
      · show c.commands.filter _ = _
        rw [commands]
        rfl
    rw [hsame]
    exact .stay
  | @command cmd rest r queued hr streams commands replies next running =>
    rw [absorb_set streams replies, commands]
    split
    · rename_i hid
      subst hid
      refine .command ?_ hr
      show h.client.commands.filter _ = _
      rw [queued, List.filter_cons, if_pos (decide_eq_true rfl)]
    · rename_i hid
      have hqueued : rest.filter (fun cmd => decide (commandId cmd = id)) =
          (h.ledger id).queued := by
        show _ = h.client.commands.filter _
        rw [queued, List.filter_cons, if_neg]
        simpa using Ne.symm hid
      rw [hqueued]
      exact .stay
  | @frame alive f rest r told arrived hr streams commands replies next running =>
    obtain ⟨rfl, heard⟩ := hframe alive f rest told arrived
    rw [absorb_set streams replies, commands]
    split
    · rename_i hid
      subst hid
      exact .frame heard hr
    · exact .stay
  | event w streams commands replies next running =>
    have hreply : c.replies = h.client.replies ++
        ((none : Option Reply).map (Prod.mk w.id)).toList := replies.trans (List.append_nil _).symm
    rw [absorb_set streams hreply, commands]
    split
    · rename_i hid
      subst hid
      exact .event (h.client.ep.live.lookup w.id) w
    · exact .stay
  | failed ended => exact absurd hrun ended

theorem closeBestEffort_cases (caps : Caps) (c : Client) (id : ℕ) :
    ∃ q, closeBestEffort caps c id = { c with commands := q } ∧ Guarded id true c.commands q := by
  unfold closeBestEffort send
  split
  · exact ⟨_, rfl, .inr ⟨rfl, rfl⟩⟩
  · exact ⟨_, rfl, .inl rfl⟩

theorem finish_cases (caps : Caps) (h : Handle) (i : ℕ) (left : Option Caller × Bool) :
    ∃ q, h.finish caps i left = { h with
        client := { h.client with commands := q }
        callers := h.callers.set i left.1 } ∧ Guarded i left.2 h.client.commands q := by
  obtain ⟨caller, armed⟩ := left
  cases armed with
  | false => exact ⟨_, rfl, .inl rfl⟩
  | true =>
    obtain ⟨q, hc, hq⟩ := closeBestEffort_cases caps h.client i
    refine ⟨q, ?_, hq⟩
    rw [finish, if_pos rfl, hc]

theorem send_cases (hs : send caps c cmd = some c') :
    c.ep.ended = none ∧ c' = { c with commands := c.commands ++ [cmd] } := by
  unfold send at hs
  split at hs
  · rename_i hroom
    rw [Bool.and_eq_true, isNone_iff_eq_none] at hroom
    cases hs
    exact ⟨hroom.2, rfl⟩
  · cases hs

theorem giveUp_client {c : Caller} (heq : (if c.hasStream then
        { h with client := (h.client.step limits caps (.stream i .drop)).getD h.client }
      else h).finish caps i c.giveUp = h') :
    ∃ ep, ep.streams = h.client.ep.streams ∧ ep.ended = h.client.ep.ended ∧
      Handle.finish caps { h with client := { h.client with ep := ep } } i c.giveUp = h' := by
  split at heq
  · cases hdrop : h.client.step limits caps (.stream i .drop) with
    | none =>
      rw [hdrop] at heq
      exact ⟨h.client.ep, rfl, rfl, heq⟩
    | some =>
      rw [hdrop] at heq
      obtain ⟨ep, hep, rfl⟩ := map_eq_some_iff.mp hdrop
      obtain ⟨s, s', eff, r, -, -, -, hep'⟩ := streamStep_cases hep
      exact ⟨ep, by rw [hep'], by rw [hep'], heq⟩
  · exact ⟨h.client.ep, rfl, rfl, heq⟩

/-! ### The steps -/

/- `act` is the step `a` of the client's driver. -/
def Drives (h : Handle) (act : HandleAct) (a : ClientAct) : Prop :=
  (act = .client a ∧ a.isDriver = true) ∨
    (act = .frame ∧ ∃ f rest, h.client.ep.frames = f :: rest ∧ a = .frame (h.waits f.streamId))

/- The command and the caller of a new stream. -/
inductive Asks (id : ℕ) : HandleAct → ClientCommand → Caller → Prop where
  | resolve (hostname : Text) (port : ℕ) :
    Asks id (.resolve hostname port) (.resolve id hostname port) (.resolving none)
  | openIp (address : SocketAddr) :
    Asks id (.openIp address) (.openIp id (canonicalizeAddress address)) (.openingIp none)

theorem Asks.commandId {c : Caller} (h : Asks id act cmd c) : commandId cmd = id := by
  cases h <;> rfl

/-- What a step does. An endpoint `ep` has the map and the end of the one before it. -/
inductive Stepped (limits : NegotiatedLimits) (caps : Caps) (h : Handle) (act : HandleAct) :
    Handle → Prop where
  | client {a : ClientAct} {c : Client} (drives : h.Drives act a)
      (hc : h.client.step limits caps a = some c) : Stepped limits caps h act (h.absorb c)
  | same {ep : Endpoint ClientStreamState} (streams : ep.streams = h.client.ep.streams)
      (ended : ep.ended = h.client.ep.ended) :
      Stepped limits caps h act { h with client := { h.client with ep := ep } }
  | acquire (hact : act = .acquire) (free : h.outstanding < limits.maxStreams) :
      Stepped limits caps h act { h with slots := h.slots + 1 }
  | leave (hact : act = .leave) : Stepped limits caps h act { h with slots := h.slots - 1 }
  | ask {cmd : ClientCommand} {c : Caller} (slots : 0 < h.slots)
      (asks : Asks h.client.nextStreamId act cmd c) :
      Stepped limits caps h act ⟨{ h.client with
          nextStreamId := h.client.nextStreamId + 2, commands := h.client.commands ++ [cmd] },
        h.slots - 1, h.callers.set h.client.nextStreamId (some c)⟩
  | finish {ep : Endpoint ClientStreamState} {i : ℕ} {c : Caller} {left : Option Caller × Bool}
      {q : List ClientCommand} (streams : ep.streams = h.client.ep.streams)
      (ended : ep.ended = h.client.ep.ended) (caller : h.callers.lookup i = some c)
      (done : c.receive = some left ∨ (act = .giveUp i ∧ left = c.giveUp))
      (guarded : Guarded i left.2 h.client.commands q) :
      Stepped limits caps h act
        ⟨{ h.client with ep := ep, commands := q }, h.slots, h.callers.set i left.1⟩
  | offer {i : ℕ} {c c' : Caller} (address : SocketAddr) (caller : h.callers.lookup i = some c)
      (offers : c.offer address = some c') :
      Stepped limits caps h act { h with callers := h.callers.set i (some c') }
  | submit {i : ℕ} {candidates : List SocketAddr} {address : SocketAddr} {permit : Bool}
      (caller : h.callers.lookup i = some (.offering candidates address permit)) :
      Stepped limits caps h act ⟨{ h.client with
          commands := h.client.commands ++ [.openTo i (canonicalizeAddress address) permit] },
        h.slots, h.callers.set i (some (.opening candidates none))⟩

theorem step_stepped (hs : h.step limits caps act = some h') : h.Stepped limits caps act h' := by
  cases act with
  | client a =>
    obtain ⟨hact, hs⟩ := ite_none_right_eq_some.mp hs
    obtain ⟨c, hc, rfl⟩ := map_eq_some_iff.mp hs
    exact .client (.inl ⟨rfl, hact⟩) hc
  | frame =>
    simp only [step] at hs
    split at hs
    · cases hs
    rename_i f rest hf
    obtain ⟨c, hc, rfl⟩ := map_eq_some_iff.mp hs
    exact .client (.inr ⟨rfl, f, rest, hf, rfl⟩) hc
  | arrive f =>
    obtain ⟨c, hc, rfl⟩ := map_eq_some_iff.mp hs
    obtain ⟨-, -, rfl⟩ := arrive_put hc
    exact .same rfl rfl
  | depart =>
    obtain ⟨c, hc, rfl⟩ := map_eq_some_iff.mp hs
    cases depart_put hc
    exact .same rfl rfl
  | acquire =>
    obtain ⟨hfree, hs⟩ := ite_none_right_eq_some.mp hs
    rw [Bool.and_eq_true, decide_eq_true_eq] at hfree
    cases hs
    exact .acquire rfl hfree.2
  | leave =>
    obtain ⟨-, hs⟩ := ite_none_right_eq_some.mp hs
    cases hs
    exact .leave rfl
  | resolve | openIp =>
    obtain ⟨hslots, hs⟩ := ite_none_right_eq_some.mp hs
    obtain ⟨c, hc, rfl⟩ := map_eq_some_iff.mp hs
    obtain ⟨-, hc⟩ := ite_none_right_eq_some.mp hc
    obtain ⟨-, rfl⟩ := send_cases hc
    exact .ask hslots (by constructor)
  | receive i =>
    obtain ⟨left, hleft, rfl⟩ := map_eq_some_iff.mp hs
    obtain ⟨c, hc, hrec⟩ := bind_eq_some_iff.mp hleft
    obtain ⟨q, heq, hq⟩ := finish_cases caps h i left
    rw [heq]
    exact .finish rfl rfl hc (.inl hrec) hq
  | offer i address =>
    obtain ⟨c', hc', rfl⟩ := map_eq_some_iff.mp hs
    obtain ⟨c, hc, hoffer⟩ := bind_eq_some_iff.mp hc'
    exact .offer address hc hoffer
  | submit i =>
    simp only [step] at hs
    split at hs
    · rename_i hc
      obtain ⟨c', hsend, rfl⟩ := map_eq_some_iff.mp hs
      obtain ⟨-, rfl⟩ := send_cases hsend
      exact .submit hc
    · cases hs
  | giveUp i =>
    obtain ⟨c, hc, heq⟩ := map_eq_some_iff.mp hs
    obtain ⟨ep, hstreams, hended, rfl⟩ := giveUp_client heq
    obtain ⟨q, heq, hq⟩ :=
      finish_cases caps { h with client := { h.client with ep := ep } } i c.giveUp
    rw [heq]
    exact .finish hstreams hended hc (.inr ⟨rfl, rfl⟩) hq

theorem Drives.shift {a : ClientAct} (hd : h.Drives act a)
    (hc : h.client.step limits caps a = some c) :
    ∃ asked, h.client.Shift limits asked c ∧ ∀ alive f rest, asked = some alive →
      h.client.ep.frames = f :: rest → act = .frame ∧ alive = h.waits f.streamId := by
  rcases hd with ⟨-, hact⟩ | ⟨rfl, f, rest, hf, rfl⟩
  · exact ⟨none, step_shift hact hc, nofun⟩
  · refine ⟨_, frame_shift hc, fun alive f' rest' halive hf' => ⟨rfl, ?_⟩⟩
    cases hf.symm.trans hf'
    cases halive
    rfl

/- The ledgers after a step that sets one caller and leaves the map alone. -/
theorem ledger_set {ep : Endpoint ClientStreamState} (streams : ep.streams = h.client.ep.streams)
    (next slots : ℕ) (q : List ClientCommand) (i : ℕ) (caller : Option Caller) (id : ℕ) :
    Handle.ledger ⟨{ h.client with ep := ep, nextStreamId := next, commands := q }, slots,
        h.callers.set i caller⟩ id =
      ⟨(h.ledger id).state, if id = i then caller else (h.ledger id).caller,
        q.filter fun cmd => decide (commandId cmd = id)⟩ := by
  refine ledger_ext ?_ (lookup_set _ _ _ _) rfl
  show ep.streams.lookup id = _
  rw [streams]
  rfl

/-- Every step of a patient run moves every ledger. -/
theorem step_ledger (hs : h.step limits caps act = some h') (hp : h.Patient act)
    (hrun : h'.client.ep.ended = none)
    (hunused : h.ledger h.client.nextStreamId = ⟨none, none, []⟩) (id : ℕ) :
    (h.ledger id).Move limits h'.client.nextStreamId id (h'.ledger id) := by
  cases step_stepped hs with
  | client drives hc =>
    obtain ⟨asked, hshift, htold⟩ := drives.shift hc
    refine absorb_ledger hshift hrun (fun alive f rest halive hf => ?_) id
    obtain ⟨rfl, hwaits⟩ := htold alive f rest halive hf
    refine ⟨hwaits, ?_⟩
    intro code diagnostic candidates permit
    exact hp f rest code diagnostic candidates permit hf
  | @same ep streams =>
    have heq : Handle.ledger { h with client := { h.client with ep := ep } } id = h.ledger id := by
      refine ledger_ext ?_ rfl rfl
      show ep.streams.lookup id = _
      rw [streams]
      rfl
    rw [heq]
    exact .stay
  | acquire | leave => exact .stay
  | @ask cmd c slots asks =>
    rw [ledger_set rfl, queued_snoc, asks.commandId]
    split
    · rename_i hid
      subst hid
      have hlt : h.client.nextStreamId < h.client.nextStreamId + 2 :=
        Nat.lt_add_of_pos_right Nat.two_pos
      show Ledger.Move _ _ _ _ ⟨_, _, (h.ledger h.client.nextStreamId).queued ++ [cmd]⟩
      rw [hunused]
      cases asks with
      | resolve hostname port => exact .ask hostname port rfl hlt
      | openIp => exact .askIp _ rfl hlt
    · exact .stay
  | finish streams ended caller done guarded =>
    rw [ledger_set streams]
    split
    · rename_i hid
      subst hid
      rcases done with hrec | ⟨rfl, rfl⟩
      · exact .receive caller hrec guarded.queued
      · exact .giveUp caller (hp _ caller) guarded.queued
    · rename_i hid
      rw [guarded.queued_of_ne hid]
      exact .stay
  | offer address caller offers =>
    rw [ledger_set rfl]
    split
    · rename_i hid
      subst hid
      exact .offer address caller offers
    · exact .stay
  | @submit i candidates address permit caller =>
    rw [ledger_set rfl, queued_snoc, show commandId (.openTo i _ permit) = i from rfl]
    split
    · rename_i hid
      subst hid
      exact .submit caller
    · exact .stay

end Ledgers

end Handle

end Alighieri.Rdp
