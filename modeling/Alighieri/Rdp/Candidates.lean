import Alighieri.Dns.Policy
import Alighieri.Rdp.RoundTrip
import Alighieri.Rdp.SlotSteps

/-!
# The candidates of a resolved target (mux.rs:346-375, 1485-1525, 1608-1655)

A RESOLVE_OK leaves its addresses in the caller's `ResolvedTarget` and in the driver's map, and
`open` looks its address up in both. The entry of a stream keeps the list it was given for as long
as it has one.
-/

namespace Alighieri.Rdp
open Net Dns Lts List Option Client

variable {cmd : ClientCommand} {alive full : Bool} {x : Entry ClientStreamState} {r : ClientHandled}
  {l : List SocketAddr} {limits : NegotiatedLimits} {f : Frame} {c c' : Client} {caps : Caps}
  {a : SocketAddr}

structure ResolvedTarget where
  streamId : ℕ
  candidates : List SocketAddr
  permit : Bool
  finished : Bool

/- `ResolvedTarget::open` up to the command it sends. -/
def ResolvedTarget.openTo (t : ResolvedTarget) (address : SocketAddr) :
    Except MuxError ClientCommand :=
  if t.finished then .error (.invalidState "resolved target was already opened")
  else if canonicalizeAddress address ∈ t.candidates then
    .ok (.openTo t.streamId (canonicalizeAddress address) t.permit)
  else .error (.invalidCandidate (canonicalizeAddress address))

def Decoded {α : Type} : PeerAct α → Prop
  | .arrive f => ∃ bytes, decodeExact bytes = .ok f
  | _ => True

/- What a stream whose caller holds `candidates` may have come to. -/
def ClientStreamState.Offers (candidates : List SocketAddr) : Option ClientStreamState → Prop
  | some (.resolving _) => False
  | some (.resolved l) => l = candidates
  | some (.opening (some l) _) => l = candidates
  | _ => True

open ClientStreamState (Offers)

/-! ### The handlers keep the list -/

theorem CommandCase.offers (h : CommandCase full x r cmd) (hcr : creates cmd = false)
    (hx : Offers l x.state) : Offers l r.entry.state := by
  cases h with
  | keep => exact hx
  | resolve | openIp => cases hcr
  | openTo hst =>
    rw [hst] at hx
    exact hx
  | closeOpened | closeEarly => trivial

theorem ClientFrameCase.offers (h : ClientFrameCase limits alive x r f)
    (hx : Offers l x.state) : Offers l r.entry.state := by
  cases h with
  | flow | late => exact hx
  | resolved hst =>
    rw [hst] at hx
    exact hx.elim
  | @openFailed _ _ _ candidates _ hst =>
    rw [hst] at hx
    cases candidates with
    | none => trivial
    | some l' => exact hx
  | _ => trivial

theorem clientWorkerEvent_offers (w : WorkerEvent) (hx : Offers l x.state) :
    Offers l (clientWorkerEvent x w).state := by
  cases w with
  | localCloseQueued | stopped =>
    simp only [clientWorkerEvent]
    split
    · trivial
    · exact hx

theorem handleClientFrame_resolved (h : handleClientFrame limits alive x f = .ok r)
    (hr : r.reply = some (.resolved l)) :
    f = .resolveOk f.streamId l ∧ x.state.isSome = true ∧ r.entry.state = some (.resolved l) := by
  cases handleClientFrame_case h with
  | resolved hx =>
    cases hr
    exact ⟨rfl, congrArg isSome hx, rfl⟩
  | opened => cases alive <;> cases hr
  | @closeEarly _ _ st => cases st <;> cases hr
  | _ => cases hr

theorem handleClientCommand_not_resolved (h : handleClientCommand full x cmd = .ok r) :
    r.reply ≠ some (.resolved l) := by
  intro hr
  cases handleClientCommand_case h with
  | keep href =>
    have hrefused := href _ hr
    cases cmd <;> exact hrefused.elim
  | closeEarly permit hx hst hpermit hreply =>
    rcases hreply with rfl | rfl | rfl <;> cases hr
  | _ => cases hr

/-! ### The run -/

/-- A stream identifier that has an entry has been started, and where a caller has been given
candidates they are canonical and those of the entry. -/
structure Client.Listed (c : Client) : Prop where
  known : ∀ id, (c.ep.streams.lookup id).isSome = true → id ≤ c.started
  offers : ∀ id l, (id, Reply.resolved l) ∈ c.replies →
    id ≤ c.started ∧ l.map canonicalizeAddress = l ∧ Offers l (c.ep.streams.lookup id)

theorem Client.Listed.same (hc : c.Listed) (hs : c'.ep.streams = c.ep.streams)
    (hr : c'.replies = c.replies) (hst : c.started ≤ c'.started) : c'.Listed := by
  refine ⟨?_, ?_⟩
  · intro id hid
    rw [hs] at hid
    exact Nat.le_trans (hc.known id hid) hst
  · intro id l hl
    rw [hr] at hl
    obtain ⟨hle, hcan, hoff⟩ := hc.offers id l hl
    rw [hs]
    exact ⟨Nat.le_trans hle hst, hcan, hoff⟩

theorem Client.Listed.write (hc : c.Listed) {i : ℕ} {v : Option ClientStreamState}
    {reply : Option Reply} (hs : c'.ep.streams = c.ep.streams.set i v)
    (hr : c'.replies = c.replies ++ (reply.map (Prod.mk i)).toList) (hst : c.started ≤ c'.started)
    (hknown : v.isSome = true → i ≤ c'.started)
    (hold : ∀ l, i ≤ c.started → Offers l (c.ep.streams.lookup i) → Offers l v)
    (hnew : ∀ l, reply = some (.resolved l) →
      i ≤ c'.started ∧ l.map canonicalizeAddress = l ∧ Offers l v) : c'.Listed := by
  refine ⟨?_, ?_⟩
  · intro id hid
    rw [hs, Table.lookup_set] at hid
    split at hid
    · rename_i he
      rw [he]
      exact hknown hid
    · exact Nat.le_trans (hc.known id hid) hst
  · intro id l hl
    rw [hr, mem_append] at hl
    rcases hl with hl | hl
    · obtain ⟨hle, hcan, hoff⟩ := hc.offers id l hl
      refine ⟨Nat.le_trans hle hst, hcan, ?_⟩
      rw [hs, Table.lookup_set]
      split
      · rename_i he
        rw [he] at hle hoff
        exact hold l hle hoff
      · exact hoff
    · rw [mem_toList] at hl
      obtain ⟨r, hreply, he⟩ := map_eq_some_iff.mp hl
      cases he
      rw [hs, Table.lookup_set_self]
      exact hnew l hreply

theorem noReply (replies : List (ℕ × Reply)) (i : ℕ) :
    replies = replies ++ ((none : Option Reply).map (Prod.mk i)).toList :=
  (append_nil replies).symm

theorem Client.Listed.command (hc : c.Listed) (hb : ClientBook c) (h : c.command limits = some c') :
    c'.Listed := by
  unfold Client.command at h
  split at h
  · split at h
    · cases h
    rename_i cmd rest hcmd
    have hfresh : creates cmd = true → c.started < commandId cmd := by
      intro hcr
      refine (hb.fresh _ ?_).1
      rw [creating, hcmd, filter_cons_of_pos hcr]
      exact mem_cons_self
    have hst : c.started ≤ if creates cmd then commandId cmd else c.started := by
      split
      · rename_i hcr
        exact Nat.le_of_lt (hfresh hcr)
      · exact Nat.le_refl _
    generalize hres : handleClientCommand (decide (limits.maxStreams ≤ c.ep.streams.size))
      (c.ep.entry (commandId cmd)) cmd = res at h
    cases h
    cases res with
    | error e => exact hc.same rfl rfl hst
    | ok r =>
      have hcase := handleClientCommand_case hres
      refine hc.write rfl rfl hst ?_ ?_ ?_
      · intro hsome
        show commandId cmd ≤ if creates cmd then commandId cmd else c.started
        split
        · exact Nat.le_refl _
        · rename_i hcr
          refine hc.known _ ?_
          cases hcase with
          | keep => exact hsome
          | resolve | openIp => exact absurd rfl hcr
          | openTo hst | closeOpened hst | closeEarly permit hst =>
            exact congrArg isSome hst
      · intro l hle hoff
        refine hcase.offers ?_ hoff
        cases hcr : creates cmd with
        | true => exact absurd (hfresh hcr) (Nat.not_lt.mpr hle)
        | false => rfl
      · intro l hl
        exact absurd hl (handleClientCommand_not_resolved hres)
  · cases h

theorem Client.Listed.frame {rest : List Frame} (hc : c.Listed) (hf : f.canonical = f) :
    (settle { c with ep := { c.ep with frames := rest } } f.streamId
      (handleClientFrame limits alive (c.ep.entry f.streamId) f)).Listed := by
  cases hres : handleClientFrame limits alive (c.ep.entry f.streamId) f with
  | error e => exact hc.same rfl rfl (Nat.le_refl _)
  | ok r =>
    have hcase := handleClientFrame_case hres
    refine hc.write rfl rfl (Nat.le_refl _) ?_ ?_ ?_
    · intro hsome
      refine hc.known _ ?_
      cases hcase with
      | flow => exact hsome
      | late hst | resolved hst | emptied hst | abandoned hst | opened hst | resolveFailed hst
      | openFailed hst | closeLast hst | closeOpened hst | closeEarly hst =>
        exact congrArg isSome hst
    · exact fun l _ hoff => hcase.offers hoff
    · intro l hl
      obtain ⟨hfr, hsome, hentry⟩ := handleClientFrame_resolved hres hl
      rw [hfr] at hf
      refine ⟨hc.known _ hsome, (Frame.resolveOk.inj hf).2, ?_⟩
      rw [hentry]
      rfl

theorem Client.Listed.event {rest : List WorkerEvent} (hc : c.Listed) (w : WorkerEvent) :
    Client.Listed { c with ep :=
      { c.ep.setEntry w.id (clientWorkerEvent (c.ep.entry w.id) w) with events := rest } } := by
  refine hc.write rfl (noReply c.replies w.id) (Nat.le_refl _) ?_ ?_ ?_
  · intro hsome
    refine hc.known _ ?_
    cases w with
    | localCloseQueued id =>
      simp only [clientWorkerEvent] at hsome
      split at hsome
      · rename_i hst
        exact congrArg isSome hst
      · exact hsome
    | stopped id =>
      simp only [clientWorkerEvent] at hsome
      split at hsome
      · cases hsome
      · exact hsome
  · exact fun l _ hoff => clientWorkerEvent_offers w hoff
  · exact fun l hl => by cases hl

theorem Client.Listed.step {act : ClientAct} (hc : c.Listed) (hb : ClientBook c)
    (hcan : ∀ f ∈ c.ep.frames, f.canonical = f) (h : c.step limits caps act = some c') :
    c'.Listed := by
  cases step_cases h with
  | turn hact ht => exact hc.same ht.kept.streams rfl (Nat.le_refl _)
  | command => exact hc.command hb h
  | frame hready hf =>
    exact hc.frame (hcan _ (by rw [hf]; exact mem_cons_self))
  | event => exact hc.event _
  | resume hr hn => exact hc.same (Endpoint.resume_keeps hr).1 rfl (Nat.le_refl _)
  | _ => exact hc.same rfl rfl (Nat.le_refl _)

structure Client.Offering (c : Client) : Prop where
  orderly : c.Orderly
  canonical : ∀ f ∈ c.ep.reader.toList ++ c.ep.frames, f.canonical = f
  listed : c.Listed

theorem Client.Offering.start : start.Offering where
  orderly := Client.Orderly.start
  canonical f hf := by cases hf
  listed := by
    refine ⟨?_, ?_⟩
    · intro id hid
      cases hid
    · intro id l hl
      cases hl

theorem Client.Offering.meet {act : PeerAct ClientAct} (hc : c.Offering) (hact : Decoded act)
    (h : c.meet limits caps act = some c') : c'.Offering := by
  cases act with
  | arrive f =>
    obtain ⟨bytes, hbytes⟩ := hact
    obtain ⟨-, -, rfl⟩ := Endpoint.arrive_put h
    refine ⟨hc.orderly.wire _ _, ?_, hc.listed.same rfl rfl (Nat.le_refl _)⟩
    intro g hg
    rcases mem_append.mp hg with hg | hg
    · rw [mem_toList] at hg
      cases hg
      exact ((decodeExact_meets bytes).1 f hbytes).2.1
    · exact hc.canonical g (mem_append_right _ hg)
  | depart =>
    cases Endpoint.depart_put h
    exact ⟨hc.orderly.wire _ _, hc.canonical, hc.listed.same rfl rfl (Nat.le_refl _)⟩
  | own act =>
    have hq := step_queues hc.orderly.tidy h
    refine ⟨hc.orderly.step h, ?_, ?_⟩
    · exact fun f hf => hc.canonical f (hq.incoming f hf)
    · exact hc.listed.step hc.orderly.book
        (fun f hf => hc.canonical f (mem_append_right _ hf)) h

theorem Client.offering_of_reachable
    (h : ReachableBy (meet limits caps) (fun _ act => Decoded act) start c) :
    c.Offering :=
  h.invariant Client.Offering.start fun _ _ _ hc hact hs => hc.meet hact hs

/-! ### What the policy picks is a candidate -/

theorem setIp_of_canonical (h : canonicalizeAddress a = a) : setIp a (canonicalIp a.ip) = a := by
  have hip : canonicalIp a.ip = a.ip := by
    rw [← canonicalizeAddress_ip, h]
  rw [hip, setIp_self]

theorem mem_of_mem_applyPolicy {candidates : List SocketAddr} {policy : DnsPolicy}
    (hcan : candidates.map canonicalizeAddress = candidates)
    (ha : a ∈ applyPolicy candidates policy) : canonicalizeAddress a = a ∧ a ∈ candidates := by
  obtain ⟨⟨b, hb, hba⟩, -⟩ := mem_applyPolicy.mp ha
  have hfix : canonicalizeAddress b = b := by
    rw [← hcan] at hb
    obtain ⟨d, -, rfl⟩ := mem_map.mp hb
    exact canonicalizeAddress_idem d
  rw [setIp_of_canonical hfix] at hba
  rw [← hba]
  exact ⟨hfix, hb⟩

theorem handleClientCommand_listed {id : ℕ} {b : SocketAddr} {permit permit' : Bool}
    (hx : Offers l x.state) (ha : a ∈ l)
    (h : handleClientCommand full x (.openTo id a permit) = .ok r) :
    r.reply ≠ some (.openFailed (.invalidCandidate b) permit') := by
  intro hr
  cases handleClientCommand_case h with
  | keep href =>
    obtain ⟨candidates, hst, hnot⟩ := (href _ hr).2.2 _ rfl
    rw [hst] at hx
    exact hnot (hx ▸ ha)
  | openTo => cases hr

/-- The policy returns the folded addresses it allows, sorted by family with the order inside a
family kept; a second pass changes nothing. A caller that opens a candidate of its RESOLVE_OK is
refused as an invalid candidate neither by its `ResolvedTarget` nor by the driver. -/
theorem applyPolicy_exact (policy : DnsPolicy) (addrs : List SocketAddr) :
    ((applyPolicy addrs policy).Perm (passing addrs policy) ∧
      ((applyPolicy addrs policy).Pairwise fun a b =>
        familyKey policy.preference a ≤ familyKey policy.preference b) ∧
      ∀ k, (applyPolicy addrs policy).filter (fun a => familyKey policy.preference a = k) =
        (passing addrs policy).filter fun a => familyKey policy.preference a = k) ∧
    applyPolicy (applyPolicy addrs policy) policy = applyPolicy addrs policy ∧
    (∀ a ∈ applyPolicy addrs policy, ¬ Ipv4Wrapper a.ip) ∧
    (∀ bytes id candidates, decodeExact bytes = .ok (.resolveOk id candidates) →
      ∀ a ∈ applyPolicy candidates policy, a ∈ candidates) ∧
    ∀ limits caps c,
      ReachableBy (meet limits caps) (fun _ act => Decoded act) start c →
      ∀ (t : ResolvedTarget), (t.streamId, .resolved t.candidates) ∈ c.replies →
      ∀ a ∈ applyPolicy t.candidates policy, a ∈ t.candidates ∧
        (∀ b, t.openTo a ≠ .error (.invalidCandidate b)) ∧
        ∀ cmd full r, t.openTo a = .ok cmd →
          handleClientCommand full (c.ep.entry t.streamId) cmd = .ok r →
          ∀ b permit, r.reply ≠ some (.openFailed (.invalidCandidate b) permit) := by
  refine ⟨⟨applyPolicy_perm addrs policy, applyPolicy_sorted addrs policy,
    applyPolicy_stable addrs policy⟩, applyPolicy_idem addrs policy,
    fun a ha => not_wrapper_of_mem_applyPolicy ha, ?_, ?_⟩
  · intro bytes id candidates hbytes a ha
    have hcan := ((decodeExact_meets bytes).1 _ hbytes).2.1
    exact (mem_of_mem_applyPolicy (Frame.resolveOk.inj hcan).2 ha).2
  · intro limits caps c hrun t ht a ha
    obtain ⟨-, hcan, hoff⟩ := (offering_of_reachable hrun).listed.offers _ _ ht
    obtain ⟨hfix, hmem⟩ := mem_of_mem_applyPolicy hcan ha
    refine ⟨hmem, ?_, ?_⟩
    · intro b hb
      unfold ResolvedTarget.openTo at hb
      rw [hfix, if_pos hmem] at hb
      split at hb <;> cases hb
    · intro cmd full r hcmd hr b permit
      unfold ResolvedTarget.openTo at hcmd
      rw [hfix, if_pos hmem] at hcmd
      split at hcmd
      · cases hcmd
      · cases hcmd
        exact handleClientCommand_listed hoff hmem hr

def answered : List (PeerAct ClientAct) :=
  [.own (.resolve ['a'] 53), .own .command, .own .resume,
    .arrive (.resolveOk 1 [.v4 0x08080808 53]), .own .deliver, .own (.frame true)]

def answerBytes : Bytes :=
  [65, 76, 82, 68, 1, 3, 0, 0, 1, 0, 0, 0, 9, 0, 0, 0, 1, 0, 1, 53, 0, 8, 8, 8, 8]

theorem decoded_answered : ∀ act ∈ answered, Decoded act := by
  intro act hact
  simp only [answered, mem_cons, not_mem_nil, or_false] at hact
  rcases hact with rfl | rfl | rfl | rfl | rfl | rfl
  · trivial
  · trivial
  · trivial
  · exact ⟨answerBytes, rfl⟩
  · trivial
  · trivial

theorem applyPolicy_exact_answered :
    ∃ c, exec (meet oneStream smallCaps) start answered = some c ∧
      (1, .resolved [.v4 0x08080808 53]) ∈ c.replies ∧
      (SocketAddr.v4 0x08080808 53) ∈ applyPolicy [.v4 0x08080808 53] ⟨.ipv4, true, [.loopback]⟩ ∧
      (SocketAddr.v4 0x08080808 53) ∈ (⟨1, [.v4 0x08080808 53], true, false⟩ :
        ResolvedTarget).candidates := by
  have hrun : (exec (meet oneStream smallCaps) start answered).map replies =
      some [(1, .resolved [.v4 0x08080808 53])] := by decide +kernel
  obtain ⟨c, hc, hreplies⟩ := map_eq_some_iff.mp hrun
  have hreach : ReachableBy (meet oneStream smallCaps) (fun _ act => Decoded act)
      start c := reachableBy_exec answered (fun act ha _ => decoded_answered act ha) .start hc
  have hmem : (1, Reply.resolved [.v4 0x08080808 53]) ∈ c.replies := by
    rw [hreplies]
    exact List.mem_singleton_self _
  have hpick : (SocketAddr.v4 0x08080808 53) ∈
      applyPolicy [.v4 0x08080808 53] ⟨.ipv4, true, [.loopback]⟩ := by decide
  exact ⟨c, hc, hmem, hpick, ((applyPolicy_exact ⟨.ipv4, true, [.loopback]⟩ []).2.2.2.2 oneStream
    smallCaps c hreach ⟨1, [.v4 0x08080808 53], true, false⟩ hmem _ hpick).1⟩

end Alighieri.Rdp
