import Alighieri.Lib.Transition
import Alighieri.Rdp.Handlers

/-!
# The agent against an arbitrary peer

Any frame may arrive at any time, and frames leave at any time. `AgentBook` is the bookkeeping
that bounds what a peer can make the agent hold.
-/

namespace Alighieri.Rdp
open Net Lts List Table Endpoint Next

variable {limits : NegotiatedLimits} {a a' : Agent} {id : ℕ} {op : Operation} {v : AgentView}
  {x : Entry AgentStreamState} {r : AgentHandled} {address : SocketAddr} {policy : AgentPolicy}
  {caps : Caps} {await : Await} {ep : Endpoint AgentStreamState}

def Agent.meet (limits : NegotiatedLimits) (policy : AgentPolicy) (caps : Caps) (a : Agent) :
    PeerAct AgentAct → Option Agent
  | .arrive f => a.lift (a.ep.arrive f)
  | .depart => a.lift (a.ep.depart.map Prod.snd)
  | .own act => a.step limits policy caps act

def AgentStreamState.working : AgentStreamState → Bool
  | .resolving | .opening _ | .cancelled => true
  | _ => false

/- The states an operation can find its stream in. -/
def Operation.Fits : Operation → Option AgentStreamState → Prop
  | .resolve _ _ _, st => st = some .resolving ∨ st = some .cancelled
  | .connect _ _, st => (∃ c, st = some (.opening c)) ∨ st = some .cancelled

/- The entry and the relay a suspended handler is going to insert. -/
def Next.inserts : Next → Option ℕ
  | .resolved id _ | .opened id => some id
  | _ => none

def Next.entries (n : Next) : ℕ := if n.inserts.isSome then 1 else 0

def Next.relays : Next → ℕ
  | .opened _ => 1
  | _ => 0

structure AgentBook (limits : NegotiatedLimits) (a : Agent) : Prop where
  streams_le : a.ep.streams.size + a.ep.await.next.entries ≤ limits.maxStreams
  work_le : a.relays.length + a.operations.length + a.ep.await.next.relays ≤ limits.maxStreams
  distinct : (a.operations.map Operation.id).Nodup
  fits : ∀ op ∈ a.operations, op.Fits (a.ep.streams.lookup op.id)
  covered : ∀ id st, a.ep.streams.lookup id = some st → st.working = true →
    id ∈ a.operations.map Operation.id
  apart : ∀ id, a.ep.await.next.inserts = some id →
    a.ep.streams.lookup id = none ∧ id ∈ a.created
  recorded : ∀ id, (a.ep.streams.lookup id).isSome = true → id ∈ a.created
  bounded : ∀ id ∈ a.created, id ≤ a.highest
  once : a.created.Nodup

/- A step that leaves the bookkeeping as it was, up to a raised `highest` and
relays that have been joined. -/
structure Agent.Quiet (a a' : Agent) : Prop where
  lookup : ∀ id, a'.ep.streams.lookup id = a.ep.streams.lookup id
  size : a'.ep.streams.size = a.ep.streams.size
  inserts : a'.ep.await.next.inserts = a.ep.await.next.inserts
  joins : a'.ep.await.next.relays = a.ep.await.next.relays
  operations : a'.operations = a.operations
  relays : a'.relays.length ≤ a.relays.length
  highest : a.highest ≤ a'.highest
  created : a'.created = a.created

theorem AgentBook.quiet (hb : AgentBook limits a) (hq : a.Quiet a') : AgentBook limits a' := by
  refine ⟨?_, ?_, ?_, ?_, ?_, ?_, ?_, ?_, ?_⟩
  · have := hb.streams_le
    rw [entries] at this
    rw [hq.size, entries, hq.inserts]
    exact this
  · have := hb.work_le
    have := hq.relays
    rw [hq.operations, hq.joins]
    omega
  · rw [hq.operations]
    exact hb.distinct
  · intro op hop
    rw [hq.operations] at hop
    rw [hq.lookup]
    exact hb.fits op hop
  · intro id st hst hw
    rw [hq.lookup] at hst
    rw [hq.operations]
    exact hb.covered id st hst hw
  · intro id hid
    rw [hq.inserts] at hid
    rw [hq.lookup, hq.created]
    exact hb.apart id hid
  · intro id hid
    rw [hq.lookup] at hid
    rw [hq.created]
    exact hb.recorded id hid
  · intro id hid
    rw [hq.created] at hid
    exact Nat.le_trans (hb.bounded id hid) hq.highest
  · rw [hq.created]
    exact hb.once

theorem AgentBook.start (limits : NegotiatedLimits) : AgentBook limits Agent.start := by
  refine ⟨?_, ?_, ?_, ?_, ?_, ?_, ?_, ?_, ?_⟩ <;>
    simp [Agent.start, Endpoint.start, Await.next, entries, inserts, relays,
      Table.size]

theorem AgentBook.no_operation (hb : AgentBook limits a)
    (hst : ∀ st, a.ep.streams.lookup id = some st → st.working = false) (hop : op ∈ a.operations) :
    op.id ≠ id := by
  intro he
  have hf := hb.fits op hop
  rw [he] at hf
  cases op with
  | resolve =>
    rcases hf with hs | hs <;> simpa [AgentStreamState.working] using hst _ hs
  | connect =>
    rcases hf with ⟨c, hs⟩ | hs <;> simpa [AgentStreamState.working] using hst _ hs

theorem AgentBook.room (hb : AgentBook limits a) (hn : a.ep.await.next = .done) :
    a.ep.streams.size ≤ limits.maxStreams ∧
      a.relays.length + a.operations.length ≤ limits.maxStreams := by
  have hstreams := hb.streams_le
  have hwork := hb.work_le
  rw [hn] at hstreams hwork
  exact ⟨hstreams, hwork⟩

theorem AgentBook.write (hb : AgentBook limits a) {st' : Option AgentStreamState}
    (hs : a'.ep.streams = a.ep.streams.set id st') (hn : a'.ep.await.next = .done)
    (hsize : a'.ep.streams.size ≤ limits.maxStreams)
    (hwork : a'.relays.length + a.operations.length ≤ limits.maxStreams)
    (hfits : ∀ op ∈ a.operations, op.id = id → op.Fits st')
    (hcovered : ∀ st, st' = some st → st.working = true → id ∈ a.operations.map Operation.id)
    (hrecorded : st'.isSome = true → id ∈ a.created) (hops : a'.operations = a.operations)
    (hhi : a'.highest = a.highest) (hcr : a'.created = a.created) : AgentBook limits a' := by
  refine ⟨?_, ?_, ?_, ?_, ?_, ?_, ?_, ?_, ?_⟩
  · rw [hn]
    exact hsize
  · rw [hn, hops]
    exact hwork
  · rw [hops]
    exact hb.distinct
  · intro op hop
    rw [hops] at hop
    rw [hs, lookup_set]
    split
    · rename_i hi
      exact hfits op hop hi
    · exact hb.fits op hop
  · intro i st hst hw
    rw [hs, lookup_set] at hst
    rw [hops]
    split at hst
    · rename_i hi
      exact hi ▸ hcovered st hst hw
    · exact hb.covered i st hst hw
  · intro i hi
    rw [hn] at hi
    cases hi
  · intro i hi
    rw [hs, lookup_set] at hi
    rw [hcr]
    split at hi
    · rename_i he
      exact he ▸ hrecorded hi
    · exact hb.recorded i hi
  · rw [hcr, hhi]
    exact hb.bounded
  · rw [hcr]
    exact hb.once

theorem AgentBook.rest (hb : AgentBook limits a) (id : ℕ) (st' : Option AgentStreamState)
    (hold : ∀ st, a.ep.streams.lookup id = some st → st.working = false)
    (hnew : ∀ st, st' = some st → st.working = false)
    (hkeep : st'.isSome = true → (a.ep.streams.lookup id).isSome = true)
    (hs : a'.ep.streams = a.ep.streams.set id st') (hn : a.ep.await.next = .done)
    (hn' : a'.ep.await.next = .done) (hops : a'.operations = a.operations)
    (hrel : a'.relays = a.relays) (hhi : a'.highest = a.highest) (hcr : a'.created = a.created) :
    AgentBook limits a' := by
  obtain ⟨hstreams, hwork⟩ := hb.room hn
  refine hb.write hs hn' ?_ ?_ ?_ ?_ (fun hi => hb.recorded id (hkeep hi)) hops hhi hcr
  · rw [hs]
    cases st' with
    | none =>
      rw [size_set_none]
      split <;> omega
    | some st =>
      rw [size_set_some, if_pos (hkeep rfl)]
      exact hstreams
  · rw [hrel]
    exact hwork
  · exact fun op hop hi => absurd hi (hb.no_operation hold hop)
  · intro st hst hw
    rw [hnew st hst] at hw
    cases hw

def AgentStreamState.candidates : AgentStreamState → Option (List SocketAddr)
  | .resolved candidates => some candidates
  | .opening candidates => candidates
  | _ => none

/- A connect goes to a canonical address the policy allows. -/
def Operation.Permitted (policy : AgentPolicy) : Operation → Prop
  | .connect _ address => canonicalizeAddress address = address ∧
      agentAddressAllowed policy address.ip = true
  | .resolve _ _ _ => True

/- What a handled frame does to the bookkeeping. -/
inductive AgentChange (v : AgentView) (x : Entry AgentStreamState) (id : ℕ)
    (r : AgentHandled) : Prop where
  | keep (state : r.entry.state = x.state) (next : r.await.next = .done)
      (spawned : r.spawned = none) (created : r.created = false) (highest : v.highest ≤ r.highest)
  | create (op : Operation) (st : AgentStreamState) (absent : x.state = none)
      (fresh : v.highest < id) (notFull : v.full = false) (notBusy : v.busy = false)
      (state : r.entry.state = some st) (await : r.await = .idle) (spawned : r.spawned = some op)
      (created : r.created = true) (highest : r.highest = id) (opId : op.id = id)
      (fits : op.Fits (some st)) (working : st.working = true)
      (permitted : op.Permitted v.policy) (bare : st.candidates = none)
  | connect (address : SocketAddr) (candidates : List SocketAddr)
      (resolved : x.state = some (.resolved candidates)) (mem : address ∈ candidates)
      (notBusy : v.busy = false) (state : r.entry.state = some (.opening (some candidates)))
      (await : r.await = .idle) (spawned : r.spawned = some (.connect id address))
      (created : r.created = false) (highest : r.highest = v.highest)
      (permitted : (Operation.connect id address).Permitted v.policy)
  | cancel (st : AgentStreamState) (state : x.state = some st)
      (running : st = .resolving ∨ ∃ c, st = .opening c) (cancelled : r.entry.state = some .cancelled)
      (next : r.await.next = .done) (spawned : r.spawned = none) (created : r.created = false)
      (highest : r.highest = v.highest)
  | retire (st : AgentStreamState) (state : x.state = some st) (resting : st.working = false)
      (gone : r.entry.state = none) (next : r.await.next = .done) (spawned : r.spawned = none)
      (created : r.created = false) (highest : r.highest = v.highest)

theorem FlowCase.next {standing : Standing} {s s' : Option Stream} {f : Frame}
    (h : FlowCase limits standing s f s' await) : await.next = .done := by
  cases h <;> rfl

theorem handleAgentFrame_change {f : Frame} (h : handleAgentFrame v x f = .ok r) :
    AgentChange v x f.streamId r := by
  cases handleAgentFrame_case h with
  | flow hc => exact .keep rfl hc.next rfl rfl (Nat.le_refl _)
  | refusedNew code diagnostic hf hx hnew => exact .keep hx.symm rfl rfl rfl (Nat.le_of_lt hnew)
  | resolve hx hnew hfull hbusy =>
    exact .create _ .resolving hx hnew hfull hbusy rfl rfl rfl rfl rfl rfl (.inl rfl) rfl trivial
      rfl
  | connectNew hx hnew hfull hbusy hallow =>
    exact .create _ (.opening none) hx hnew hfull hbusy rfl rfl rfl rfl rfl rfl (.inl ⟨none, rfl⟩)
      rfl ⟨canonicalizeAddress_idem _, hallow⟩ rfl
  | connect hx hmem hbusy hallow =>
    exact .connect _ _ hx hmem hbusy rfl rfl rfl rfl rfl ⟨canonicalizeAddress_idem _, hallow⟩
  | refused | closeCancelled => exact .keep rfl rfl rfl rfl (Nat.le_refl _)
  | closeStale hx => exact .keep hx.symm rfl rfl rfl (Nat.le_refl _)
  | cancel hx =>
    rcases hx with hx | ⟨c, hx⟩
    · exact .cancel _ hx (.inl rfl) rfl rfl rfl rfl rfl
    · exact .cancel _ hx (.inr ⟨c, rfl⟩) rfl rfl rfl rfl rfl
  | closeLast hx | closeOpened hx | closeResolved hx =>
    exact .retire _ hx rfl rfl rfl rfl rfl rfl

theorem AgentBook.begins (hb : AgentBook limits a) (op : Operation) (st : AgentStreamState)
    (hold : ∀ st, a.ep.streams.lookup op.id = some st → st.working = false)
    (hfits : op.Fits (some st)) (hn : a.ep.await.next = .done) (hn' : a'.ep.await = .idle)
    (hs : a'.ep.streams = a.ep.streams.set op.id (some st))
    (hroom : a.ep.streams.lookup op.id = none → a.ep.streams.size < limits.maxStreams)
    (hfree : a.relays.length + a.operations.length < limits.maxStreams)
    (hops : a'.operations = a.operations ++ [op]) (hrel : a'.relays = a.relays)
    (hhi : a.highest ≤ a'.highest)
    (hcr : (a'.created = a.created ∧ (a.ep.streams.lookup op.id).isSome = true) ∨
      (a'.created = a.created ++ [op.id] ∧ a.highest < op.id ∧ a'.highest = op.id)) :
    AgentBook limits a' := by
  have hstreams := hb.streams_le
  rw [hn] at hstreams
  have hlook : ∀ i, i ≠ op.id → a'.ep.streams.lookup i = a.ep.streams.lookup i := by
    intro i hi
    rw [hs]
    exact lookup_set_of_ne hi
  have hself : a'.ep.streams.lookup op.id = some st := by
    rw [hs]
    exact lookup_set_self _ _ _
  have hfresh : op.id ∉ a.operations.map Operation.id := by
    intro hm
    obtain ⟨o, ho, hid⟩ := mem_map.mp hm
    exact hb.no_operation hold ho hid
  refine ⟨?_, ?_, ?_, ?_, ?_, ?_, ?_, ?_, ?_⟩
  · rw [hn', hs, size_set_some]
    simp only [Await.next, entries, inserts, Option.isSome_none] at hstreams ⊢
    split
    · simpa using hstreams
    · rename_i hnone
      have := hroom (by simpa using hnone)
      simp
      omega
  · rw [hn', hops, hrel, length_append]
    simp only [Await.next, relays, length_singleton]
    omega
  · rw [hops, map_append, map_singleton]
    exact nodup_append.mpr ⟨hb.distinct, nodup_singleton _, by
      intro i hi j hj
      rw [mem_singleton] at hj
      rintro rfl
      exact hfresh (hj ▸ hi)⟩
  · intro o ho
    rw [hops] at ho
    rcases mem_append.mp ho with ho | ho
    · rw [hlook _ (hb.no_operation hold ho)]
      exact hb.fits o ho
    · rw [mem_singleton.mp ho, hself]
      exact hfits
  · intro i s hst hw
    rw [hops, map_append]
    by_cases hi : i = op.id
    · exact mem_append_right _ (by simp [hi])
    · rw [hlook i hi] at hst
      exact mem_append_left _ (hb.covered i s hst hw)
  · intro i hi
    rw [hn'] at hi
    cases hi
  · intro i hi
    by_cases he : i = op.id
    · rcases hcr with ⟨hcr, hsome⟩ | ⟨hcr, -, -⟩
      · rw [hcr, he]
        exact hb.recorded _ hsome
      · rw [hcr, he]
        exact mem_append_right _ (mem_singleton_self _)
    · rw [hlook i he] at hi
      have hmem := hb.recorded i hi
      rcases hcr with ⟨hcr, -⟩ | ⟨hcr, -⟩
      · rw [hcr]
        exact hmem
      · rw [hcr]
        exact mem_append_left _ hmem
  · intro i hi
    rcases hcr with ⟨hcr, -⟩ | ⟨hcr, hlt, hh⟩
    · rw [hcr] at hi
      exact Nat.le_trans (hb.bounded i hi) hhi
    · rw [hcr] at hi
      rcases mem_append.mp hi with hi | hi
      · exact Nat.le_trans (hb.bounded i hi) hhi
      · rw [mem_singleton.mp hi, hh]
  · rcases hcr with ⟨hcr, -⟩ | ⟨hcr, hlt, -⟩
    · rw [hcr]
      exact hb.once
    · rw [hcr]
      refine nodup_append.mpr ⟨hb.once, nodup_singleton _, ?_⟩
      intro i hi j hj
      have := hb.bounded i hi
      rw [mem_singleton.mp hj]
      omega

theorem AgentBook.cancels (hb : AgentBook limits a) (id : ℕ) (st : AgentStreamState)
    (hst : a.ep.streams.lookup id = some st) (hrun : st = .resolving ∨ ∃ c, st = .opening c)
    (hn : a.ep.await.next = .done) (hn' : a'.ep.await.next = .done)
    (hs : a'.ep.streams = a.ep.streams.set id (some .cancelled))
    (hops : a'.operations = a.operations) (hrel : a'.relays = a.relays)
    (hhi : a'.highest = a.highest) (hcr : a'.created = a.created) : AgentBook limits a' := by
  obtain ⟨hstreams, hwork⟩ := hb.room hn
  refine hb.write hs hn' ?_ ?_ ?_ ?_ ?_ hops hhi hcr
  · rw [hs, size_set_some, hst]
    exact hstreams
  · rw [hrel]
    exact hwork
  · intro op hop hi
    cases op with
    | resolve | connect => exact .inr rfl
  · intro s hs hw
    refine hb.covered id st hst ?_
    rcases hrun with rfl | ⟨c, rfl⟩ <;> rfl
  · exact fun _ => hb.recorded id (by rw [hst]; rfl)

theorem AgentBook.settle (hb : AgentBook limits a) (hn : a.ep.await.next = .done)
    (hc : AgentChange (a.view limits policy) (a.ep.entry id) id r) :
    AgentBook limits (a.settle id (.ok r)) := by
  cases hc with
  | keep state next spawned created highest =>
    refine hb.quiet ⟨?_, ?_, ?_, ?_, ?_, ?_, ?_, ?_⟩
    · intro i
      simp only [Agent.settle, setEntry, state]
      exact lookup_set_lookup _ _ _
    · simp only [Agent.settle, setEntry, state]
      exact size_set_lookup _ _
    · simp only [Agent.settle, next, hn]
    · simp only [Agent.settle, next, hn]
    · simp [Agent.settle, spawned]
    · exact Nat.le_refl _
    · exact highest
    · simp [Agent.settle, created]
  | create op st absent fresh notFull notBusy state await spawned created highest opId fits =>
    subst opId
    have hnone : a.ep.streams.lookup op.id = none := absent
    have hroom : a.ep.streams.size < limits.maxStreams := by simpa [Agent.view] using notFull
    have hfree : a.relays.length + a.operations.length < limits.maxStreams := by
      simpa [Agent.view] using notBusy
    have hlt : a.highest < op.id := fresh
    refine hb.begins op st ?_ fits hn await ?_ (fun _ => hroom) hfree ?_ rfl ?_ (.inr ⟨?_, hlt, highest⟩)
    · intro s hs
      rw [hnone] at hs
      cases hs
    · simp only [Agent.settle, setEntry, state]
    · simp [Agent.settle, spawned]
    · exact Nat.le_trans (Nat.le_of_lt hlt) (Nat.le_of_eq highest.symm)
    · simp [Agent.settle, created]
  | connect address candidates resolved mem notBusy state await spawned created highest =>
    have hres : a.ep.streams.lookup id = some (.resolved candidates) := resolved
    have hfree : a.relays.length + a.operations.length < limits.maxStreams := by
      simpa [Agent.view] using notBusy
    refine hb.begins (.connect id address) (.opening (some candidates)) ?_ (.inl ⟨_, rfl⟩) hn await
      ?_ ?_ hfree ?_ rfl ?_ (.inl ⟨?_, ?_⟩)
    · intro s hs
      rw [Operation.id, hres] at hs
      cases hs
      rfl
    · simp only [Agent.settle, setEntry, state, Operation.id]
    · intro hnone
      rw [Operation.id, hres] at hnone
      cases hnone
    · simp [Agent.settle, spawned]
    · exact Nat.le_of_eq highest.symm
    · simp [Agent.settle, created]
    · simp [Operation.id, hres]
  | cancel st state running cancelled next spawned created highest =>
    refine hb.cancels id st state running hn next ?_ ?_ rfl highest ?_
    · simp only [Agent.settle, setEntry, cancelled]
    · simp [Agent.settle, spawned]
    · simp [Agent.settle, created]
  | retire st state resting gone next spawned created highest =>
    have hst : a.ep.streams.lookup id = some st := state
    refine hb.rest id none ?_ ?_ ?_ ?_ hn next ?_ rfl highest ?_
    · intro s hs
      rw [hst] at hs
      cases hs
      exact resting
    · intro s hs
      cases hs
    · intro hs
      cases hs
    · simp only [Agent.settle, setEntry, gone]
    · simp [Agent.settle, spawned]
    · simp [Agent.settle, created]

theorem finish_fits {answer : Answer} {done : AgentOperation} (hf : op.Fits x.state)
    (hd : op.finish policy answer = some done) :
    ∃ x' await, finishAgentOperation x done = .ok (x', await) ∧
      (∀ st, x'.state = some st → st.working = false) ∧
      (await.next.inserts = none ∨ (x'.state = none ∧ await.next.inserts = some op.id)) := by
  obtain ⟨state, stream⟩ := x
  have hgone : ∀ st, (none : Option AgentStreamState) = some st → st.working = false := by
    intro st hs
    cases hs
  cases op with
  | resolve id hostname port =>
    cases answer with
    | socket r => cases hd
    | lookup r =>
      cases hd
      generalize r.map (resolveRemote policy port) = result
      rcases hf with rfl | rfl
      · rcases result with e | addresses
        · exact ⟨_, _, rfl, hgone, .inl rfl⟩
        · cases addresses with
          | nil => exact ⟨_, _, rfl, hgone, .inl rfl⟩
          | cons => exact ⟨_, _, rfl, hgone, .inr ⟨rfl, rfl⟩⟩
      · exact ⟨_, _, rfl, hgone, .inl rfl⟩
  | connect =>
    cases answer with
    | lookup r => cases hd
    | socket r =>
      cases hd
      rcases hf with ⟨candidates, rfl⟩ | rfl
      · have hrest : ∀ st, candidates.map AgentStreamState.resolved = some st →
            st.working = false := by
          intro st hs
          obtain ⟨c, -, rfl⟩ := Option.map_eq_some_iff.mp hs
          rfl
        rcases r with e | (e | bound)
        · exact ⟨_, _, rfl, hrest, .inl rfl⟩
        · exact ⟨_, _, rfl, hrest, .inl rfl⟩
        · exact ⟨_, _, rfl, hgone, .inr ⟨rfl, rfl⟩⟩
      · exact ⟨_, _, rfl, hgone, .inl rfl⟩

theorem Operation.fits_working {st : Option AgentStreamState} (h : op.Fits st) :
    ∃ s, st = some s ∧ s.working = true := by
  cases op with
  | resolve => rcases h with rfl | rfl <;> exact ⟨_, rfl, rfl⟩
  | connect => rcases h with ⟨c, rfl⟩ | rfl <;> exact ⟨_, rfl, rfl⟩

theorem Next.relays_le (n : Next) : n.relays ≤ 1 := by
  cases n <;> simp [relays]

theorem AgentBook.finishes (hb : AgentBook limits a) {i : ℕ} {x' : Entry AgentStreamState}
    (hop : a.operations[i]? = some op) (hn : a.ep.await.next = .done)
    (hrest : ∀ st, x'.state = some st → st.working = false)
    (hins : await.next.inserts = none ∨ (x'.state = none ∧ await.next.inserts = some op.id))
    (ha' : a' = { a with
      operations := a.operations.eraseIdx i
      ep := { a.ep.setEntry op.id x' with await := await } }) : AgentBook limits a' := by
  obtain ⟨hi, hget⟩ := List.getElem?_eq_some_iff.mp hop
  have hmem : op ∈ a.operations := hget ▸ getElem_mem hi
  have hsome : (a.ep.streams.lookup op.id).isSome = true := by
    obtain ⟨st, hst, -⟩ := Operation.fits_working (hb.fits op hmem)
    rw [hst]
    rfl
  have hstreams := hb.streams_le
  have hwork := hb.work_le
  rw [hn] at hstreams hwork
  have hids : a'.operations.map Operation.id = (a.operations.map Operation.id).erase op.id := by
    have hi' : i < (a.operations.map Operation.id).length := by simpa using hi
    have he := hb.distinct.erase_getElem i hi'
    rw [getElem_map, hget] at he
    rw [ha', he, eraseIdx_map]
  have hothers : ∀ o ∈ a'.operations, o ∈ a.operations ∧ o.id ≠ op.id := by
    intro o ho
    have hidmem : o.id ∈ a'.operations.map Operation.id := mem_map_of_mem ho
    rw [hids] at hidmem
    refine ⟨?_, fun he => (hb.distinct.mem_erase_iff.mp hidmem).1 he⟩
    rw [ha'] at ho
    exact mem_of_mem_eraseIdx ho
  have hlook : ∀ j, j ≠ op.id → a'.ep.streams.lookup j = a.ep.streams.lookup j := by
    intro j hj
    rw [ha']
    exact lookup_set_of_ne hj
  have hself : a'.ep.streams.lookup op.id = x'.state := by
    rw [ha']
    exact lookup_set_self _ _ _
  have hpos : 0 < a.ep.streams.size := by
    have hk := (mem_keys_iff a.ep.streams op.id).mpr hsome
    exact length_pos_of_mem hk
  refine ⟨?_, ?_, ?_, ?_, ?_, ?_, ?_, ?_, ?_⟩
  · rw [ha']
    simp only [setEntry, entries] at hstreams ⊢
    rcases hins with hnone | ⟨hgone, hsomeid⟩
    · rw [hnone]
      cases hx : x'.state with
      | none =>
        rw [size_set_none, if_pos hsome]
        simp
        omega
      | some st =>
        rw [size_set_some, if_pos hsome]
        simp
        omega
    · rw [hgone, hsomeid, size_set_none, if_pos hsome]
      simp
      omega
  · have hr := relays_le await.next
    rw [ha']
    simp only [length_eraseIdx_of_lt hi]
    omega
  · rw [hids]
    exact hb.distinct.erase _
  · intro o ho
    rw [hlook _ (hothers o ho).2]
    exact hb.fits o (hothers o ho).1
  · intro j st hst hw
    by_cases hj : j = op.id
    · subst hj
      rw [hself] at hst
      rw [hrest st hst] at hw
      cases hw
    · rw [hlook j hj] at hst
      rw [hids]
      exact hb.distinct.mem_erase_iff.mpr ⟨hj, hb.covered j st hst hw⟩
  · intro j hj
    have hj' : await.next.inserts = some j := by
      rw [ha'] at hj
      exact hj
    rcases hins with hnone | ⟨hgone, hsomeid⟩
    · rw [hnone] at hj'
      cases hj'
    · rw [hsomeid] at hj'
      cases hj'
      refine ⟨hself.trans hgone, ?_⟩
      rw [ha']
      exact hb.recorded _ hsome
  · intro j hj
    rw [ha']
    by_cases he : j = op.id
    · rw [he]
      exact hb.recorded _ hsome
    · rw [hlook j he] at hj
      exact hb.recorded j hj
  · rw [ha']
    exact hb.bounded
  · rw [ha']
    exact hb.once

theorem AgentBook.inserted (hb : AgentBook limits a) {st : AgentStreamState}
    (hins : a.ep.await.next.inserts = some id) (hst : st.working = false)
    (hidle : a'.ep.await = .idle) (hs : a'.ep.streams = a.ep.streams.set id (some st))
    (hrel : a'.relays.length = a.relays.length + a.ep.await.next.relays)
    (hops : a'.operations = a.operations) (hhi : a'.highest = a.highest)
    (hcr : a'.created = a.created) : AgentBook limits a' := by
  obtain ⟨hnone, hcreated⟩ := hb.apart id hins
  have hstreams := hb.streams_le
  have hwork := hb.work_le
  refine hb.write hs (by rw [hidle]; rfl) ?_ ?_ ?_ ?_ (fun _ => hcreated) hops hhi hcr
  · rw [entries, hins] at hstreams
    rw [hs, size_set_some, hnone]
    exact hstreams
  · rw [hrel]
    omega
  · intro op hop hi
    refine absurd hi (hb.no_operation ?_ hop)
    intro s h
    rw [hnone] at h
    cases h
  · intro s hs hw
    cases hs
    rw [hst] at hw
    cases hw

theorem AgentBook.ep_quiet (hb : AgentBook limits a) (hs : ep.streams = a.ep.streams)
    (hi : ep.await.next.inserts = a.ep.await.next.inserts)
    (hj : ep.await.next.relays = a.ep.await.next.relays) : AgentBook limits { a with ep := ep } :=
  hb.quiet ⟨fun _ => by rw [hs], by rw [hs], hi, hj, rfl, Nat.le_refl _, Nat.le_refl _, rfl⟩

theorem AgentBook.kept (hb : AgentBook limits a) (hk : a.ep.Kept ep) :
    AgentBook limits { a with ep := ep } := by
  rcases hk.await with he | ⟨hn | ⟨nonce, hn⟩, hn' | ⟨nonce', hn'⟩⟩
  · exact hb.ep_quiet hk.streams (by rw [he]) (by rw [he])
  all_goals
    refine hb.ep_quiet hk.streams ?_ ?_
    · simp only [hn, hn', inserts]
    · simp only [hn, hn', relays]

theorem agentWorkerEvent_opened (w : WorkerEvent) (hx : x.state = some .opened) :
    (agentWorkerEvent x w).state = none ∨ (agentWorkerEvent x w).state = some .closing := by
  cases w with
  | localCloseQueued id => right; simp only [agentWorkerEvent, hx, if_true]
  | stopped id => left; simp only [agentWorkerEvent, hx, if_true]

theorem agentWorkerEvent_other (w : WorkerEvent) (hx : x.state ≠ some .opened) :
    agentWorkerEvent x w = x := by
  cases w <;> simp only [agentWorkerEvent, hx, if_false]

theorem AgentBook.event {rest : List WorkerEvent} (hb : AgentBook limits a)
    (hready : a.ep.ready = true) (w : WorkerEvent) : AgentBook limits { a with ep :=
      { a.ep.setEntry w.id (agentWorkerEvent (a.ep.entry w.id) w) with events := rest } } := by
  have hdone : a.ep.await.next = .done := by
    rw [(ready_iff.mp hready).2]
    rfl
  by_cases hst : a.ep.streams.lookup w.id = some .opened
  · have hold : ∀ st, a.ep.streams.lookup w.id = some st → st.working = false := by
      intro st hs
      rw [hst] at hs
      cases hs
      rfl
    have hsome : (a.ep.streams.lookup w.id).isSome := by rw [hst]; rfl
    have hnew : ∀ st, (agentWorkerEvent (a.ep.entry w.id) w).state = some st →
        st.working = false := by
      intro st hs
      rcases agentWorkerEvent_opened (x := a.ep.entry w.id) w hst with hn | hn
      · rw [hn] at hs
        cases hs
      · rw [hn] at hs
        cases hs
        rfl
    exact hb.rest w.id (agentWorkerEvent (a.ep.entry w.id) w).state hold hnew
      (fun _ => hsome) rfl hdone hdone rfl rfl rfl rfl
  · have hsame : (agentWorkerEvent (a.ep.entry w.id) w).state = a.ep.streams.lookup w.id := by
      rw [agentWorkerEvent_other w hst]
      rfl
    refine hb.quiet ⟨?_, ?_, rfl, rfl, rfl, Nat.le_refl _, Nat.le_refl _, rfl⟩
    · intro i
      simp only [setEntry, hsame]
      exact lookup_set_lookup _ _ _
    · simp only [setEntry, hsame]
      exact size_set_lookup _ _

theorem AgentBook.step {act : AgentAct} (hb : AgentBook limits a)
    (h : a.step limits policy caps act = some a') : AgentBook limits a' := by
  have hdone : a.ep.ready = true → a.ep.await.next = .done := by
    intro hready
    rw [(ready_iff.mp hready).2]
    rfl
  cases Agent.step_cases h with
  | turn ht => exact hb.kept ht.kept
  | frame hready hf hping hpong =>
    rename_i f rest
    have hpop : AgentBook limits { a with ep := { a.ep with frames := rest } } :=
      hb.ep_quiet rfl rfl rfl
    cases hr : handleAgentFrame (a.view limits policy) (a.ep.entry f.streamId) f with
    | ok r => exact hpop.settle (hdone hready) (handleAgentFrame_change hr)
    | error e => exact hpop.ep_quiet rfl rfl rfl
  | event hready hw => exact hb.event hready _
  | finish hready hop hd hok =>
    rename_i op done x await
    have hfits : op.Fits (a.ep.entry op.id).state := hb.fits op (mem_of_getElem? hop)
    obtain ⟨x', await', hok', hrest, hins⟩ := finish_fits hfits hd
    rw [hok] at hok'
    cases hok'
    exact hb.finishes hop (hdone hready) hrest hins rfl
  | finishError hready hop hd herr =>
    rename_i op done error
    have hfits : op.Fits (a.ep.entry op.id).state := hb.fits op (mem_of_getElem? hop)
    obtain ⟨x', await', hok, -⟩ := finish_fits hfits hd
    rw [herr] at hok
    cases hok
  | joinRelay =>
    exact hb.quiet ⟨fun _ => rfl, rfl, rfl, rfl, rfl, length_erase_le, Nat.le_refl _, rfl⟩
  | resolved hr =>
    cases (resume_cases hr).2 with
    | ordered ha | control ha =>
      exact hb.inserted (by rw [ha]; rfl) rfl rfl rfl (by rw [ha]; rfl) rfl rfl rfl
  | opened hr =>
    cases (resume_cases hr).2 with
    | ordered ha | control ha =>
      exact hb.inserted (by rw [ha]; rfl) rfl rfl rfl
        (by rw [ha]; exact length_append) rfl rfl rfl

theorem AgentBook.meet {act : PeerAct AgentAct} (hb : AgentBook limits a)
    (h : a.meet limits policy caps act = some a') : AgentBook limits a' := by
  cases act with
  | arrive f =>
    obtain ⟨-, -, rfl⟩ := arrive_put h
    exact hb.ep_quiet rfl rfl rfl
  | depart =>
    cases depart_put h
    exact hb.ep_quiet rfl rfl rfl
  | own act => exact hb.step h

theorem AgentBook.reachable (h : Reachable (Agent.meet limits policy caps) Agent.start a) :
    AgentBook limits a :=
  h.invariant (AgentBook.start limits) fun _ _ _ hb hs => hb.meet hs

/- The two bounds hold, the running operations are the working streams, each of them is finished
without an error, and a stream identifier stands for one stream only. -/
theorem agent_holds_within_limits (limits : NegotiatedLimits) (policy : AgentPolicy) (caps : Caps)
    {a : Agent} (h : Reachable (Agent.meet limits policy caps) Agent.start a) :
    a.ep.streams.size ≤ limits.maxStreams ∧
    a.relays.length + a.operations.length ≤ limits.maxStreams ∧
    (a.operations.map Operation.id).Nodup ∧
    (∀ id, id ∈ a.operations.map Operation.id ↔
      ∃ st, a.ep.streams.lookup id = some st ∧ st.working = true) ∧
    (∀ op ∈ a.operations, ∀ answer done, op.finish policy answer = some done →
      ∃ r, finishAgentOperation (a.ep.entry op.id) done = .ok r) ∧
    a.created.Nodup ∧ ∀ id, (a.ep.streams.lookup id).isSome = true → id ∈ a.created := by
  have hb := AgentBook.reachable h
  have hs := hb.streams_le
  have hw := hb.work_le
  refine ⟨by omega, by omega, hb.distinct, ?_, ?_, hb.once, hb.recorded⟩
  · intro id
    constructor
    · intro hid
      obtain ⟨op, hop, rfl⟩ := List.mem_map.mp hid
      exact Operation.fits_working (hb.fits op hop)
    · rintro ⟨st, hst, hwork⟩
      exact hb.covered id st hst hwork
  · intro op hop answer done hd
    obtain ⟨x', await, hok, -⟩ := finish_fits (x := a.ep.entry op.id) (hb.fits op hop) hd
    exact ⟨(x', await), hok⟩

theorem agent_holds_within_limits_second :
    ∃ a, Lts.exec (Agent.meet oneStream ⟨true, true, true⟩ smallCaps) Agent.start
        [.arrive (.resolve 1 80 ['a']), .own .deliver, .own .frame,
          .arrive (.resolve 3 80 ['b']), .own .deliver, .own .frame, .own .resume] = some a ∧
      a.ep.log = [openErrorFrame 3 .resourceLimit "agent stream limit reached".toList] ∧
      a.operations = [.resolve 1 ['a'] 80] ∧
      a.relays.length + a.operations.length ≤ oneStream.maxStreams :=
  ⟨_, rfl, rfl, rfl, (agent_holds_within_limits oneStream ⟨true, true, true⟩ smallCaps
    (Lts.reachable_exec [.arrive (.resolve 1 80 ['a']), .own .deliver, .own .frame,
      .arrive (.resolve 3 80 ['b']), .own .deliver, .own .frame, .own .resume]
      (Reachable.start _) rfl)).2.1⟩

end Alighieri.Rdp
