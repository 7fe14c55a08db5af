import Alighieri.Abuse.Controls

/-!
# What a step of the abuse controls can do

`Move` lists the effects of a step with what its guards have established; every invariant is
proved over the moves, and over the write that begins a reload.
-/

namespace Alighieri.Abuse
open Net

variable {s t : Controls} {h : Holder} {todo : List IpAddr}

namespace ClientState

structure Denied (st : ClientState) (config : RateLimits) (now : ℕ) (st' : ClientState) : Prop where
  authFailures :
    st'.authFailures = (isLimitExceeded st.authFailures config.authFailureRate now).2
  connections : st'.connections = st.connections ∨
    st'.connections = (incrementWindow st.connections config.connectionRate now).2
  bandwidth : st'.bandwidth = st.bandwidth
  activeConnections : st'.activeConnections = st.activeConnections
  tuned : st'.tuned = st.tuned

structure Granted (st : ClientState) (config : RateLimits) (now gen fresh : ℕ)
    (st' : ClientState) : Prop where
  unblocked : (isLimitExceeded st.authFailures config.authFailureRate now).1 = false
  free : ∀ limit, config.concurrentConnections = some limit → st.activeConnections < limit
  within : (incrementWindow st.connections config.connectionRate now).1 = false
  authFailures :
    st'.authFailures = (isLimitExceeded st.authFailures config.authFailureRate now).2
  connections : st'.connections = (incrementWindow st.connections config.connectionRate now).2
  bandwidth : st'.bandwidth = (st.reconcileBandwidth config gen fresh).bandwidth
  activeConnections : st'.activeConnections = st.activeConnections + 1
  tuned : st'.tuned = gen

theorem admitClient_cases (st : ClientState) (config : RateLimits) (now gen fresh : ℕ) :
    (∃ e st', st.admitClient config now gen fresh = (.error e, st') ∧ st.Denied config now st') ∨
      ∃ st', st.admitClient config now gen fresh = (.ok (), st') ∧
        st.Granted config now gen fresh st' := by
  unfold admitClient
  dsimp only
  split
  · exact .inl ⟨_, _, rfl, rfl, .inl rfl, rfl, rfl, rfl⟩
  · rename_i hunblocked
    split
    · exact .inl ⟨_, _, rfl, rfl, .inl rfl, rfl, rfl, rfl⟩
    · rename_i hfree
      split
      · exact .inl ⟨_, _, rfl, rfl, .inr rfl, rfl, rfl, rfl⟩
      · rename_i hwithin
        refine .inr ⟨_, rfl, ?_, ?_, ?_, rfl, rfl, rfl, rfl, rfl⟩
        · simpa using hunblocked
        · intro limit hlimit
          simpa [hlimit] using hfree
        · simpa using hwithin

end ClientState

/- Past the cap, on the way to evicting somebody. -/
def Phase.makesRoom : Phase → Bool
  | .room _ _ _ | .evict _ => true
  | _ => false

def Phase.victims : Phase → List IpAddr
  | .room _ _ victims | .evict victims => victims
  | _ => []

/- The effect of every step but a reload's write. -/
inductive Move (s : Controls) : Controls → Prop where
  | tick (duration : ℕ) : Move s { s with clock := s.clock + duration }
  | lock (op : Op) (ip : IpAddr) (gen : ℕ) (todo : List IpAddr) (free : s.holder = none)
      (old : gen ≤ s.gen) (fresh : op = .admitClient → gen = s.gen) :
      Move s { s with
        admissions := s.admissions + 1
        holder := some ⟨op, ip, gen, s.clock, .prune todo⟩ }
  | goTo (h : Holder) (phase : Phase) (held : s.holder = some h)
      (victims : ∀ v ∈ phase.victims, v ∈ h.phase.victims ∨
        ∃ id, s.clients.lookup v = some id ∧ (s.states id).activeConnections = 0)
      (commit : ∀ id, phase = .commit id → s.clients.lookup h.ip = some id)
      (crowded : phase.makesRoom = true → h.phase.makesRoom = true ∨
        maxTrackedClients ≤ Table.size s.clients) :
      Move s (s.goTo h phase)
  | expire (h : Holder) (todo : List IpAddr) (ip : IpAddr) (id : ℕ) (full : Bool)
      (held : s.holder = some h) (found : s.clients.lookup ip = some id)
      (expired : (s.states id).isExpired (s.configs h.gen) h.now full = true) :
      Move s { s.goTo h (.prune todo) with clients := Table.set s.clients ip none }
  | evict (h : Holder) (ip : IpAddr) (victims : List IpAddr) (held : s.holder = some h)
      (phase : h.phase = .evict (ip :: victims)) :
      Move s { s.goTo h (.evict victims) with clients := Table.set s.clients ip none }
  | track (h : Holder) (held : s.holder = some h) (absent : s.clients.lookup h.ip = none) :
      Move s { s.goTo h (.commit s.nextState) with
        clients := Table.set s.clients h.ip (some s.nextState)
        states := Function.update s.states s.nextState (.new h.now)
        nextState := s.nextState + 1 }
  | deny (h : Holder) (id : ℕ) (st : ClientState) (held : s.holder = some h)
      (phase : h.phase = .commit id) (op : h.op = .admitClient)
      (denied : (s.states id).Denied (s.configs h.gen) h.now st) :
      Move s { s with states := Function.update s.states id st, holder := none }
  | grant (h : Holder) (id : ℕ) (st : ClientState) (held : s.holder = some h)
      (phase : h.phase = .commit id) (op : h.op = .admitClient)
      (granted : (s.states id).Granted (s.configs h.gen) h.now h.gen s.nextBucket st) :
      Move s { s with
        states := Function.update s.states id st
        holder := none
        nextBucket := s.nextBucket + 1
        permits := ⟨h.ip, id, st.bandwidth, h.gen⟩ :: s.permits
        log := .admitted h.ip h.now :: s.log }
  | commitFail (h : Holder) (id : ℕ) (held : s.holder = some h) (phase : h.phase = .commit id) :
      Move s (s.commitFail h id)
  | release (i : ℕ) (p : Permit) (at_ : s.permits[i]? = some p) : Move s (s.dropPermit i p)
  | snapshot (states : List ℕ) (free : s.holder = none) (update : s.update = some .written) :
      Move s { s with update := some (.retuning states) }
  | retune (states : List ℕ) (id : ℕ) (update : s.update = some (.retuning states)) :
      Move s (s.retune states id)
  | updated (update : s.update = some (.retuning [])) : Move s { s with update := none }

namespace Controls

theorem visit_move (ip : IpAddr) (busy full : Bool) (held : s.holder = some h) :
    Move s (s.visit h todo ip busy full) := by
  have hkeep : Move s (s.goTo h (.prune (todo.erase ip))) :=
    .goTo h _ held nofun nofun nofun
  unfold visit
  dsimp only
  split
  · rename_i id hfound
    split
    · rename_i hexp
      rw [Bool.and_eq_true] at hexp
      exact .expire h _ ip id full held hfound hexp.2
    · exact hkeep
  · exact hkeep

theorem settle_move (held : s.holder = some h) : Move s (s.settle h) := by
  unfold settle
  split
  · rename_i hfull
    exact .goTo h _ held nofun nofun fun _ => .inr hfull.1
  · exact .goTo h _ held nofun nofun nofun

theorem scan_move {excess : ℕ} {victims : List IpAddr} (ip : IpAddr) (busy : Bool)
    (held : s.holder = some h) (phase : h.phase = .room todo excess victims) :
    Move s (s.scan h todo excess victims ip busy) := by
  have hkeep : Move s (s.goTo h (.room (todo.erase ip) excess victims)) := by
    refine .goTo h _ held ?_ nofun fun _ => .inl (by rw [phase]; rfl)
    intro v hv
    rw [phase]
    exact .inl hv
  unfold scan
  split
  · rename_i id hfound
    split
    · rename_i hidle
      rw [Bool.and_eq_true, beq_iff_eq] at hidle
      refine .goTo h _ held ?_ nofun fun _ => .inl (by rw [phase]; rfl)
      intro v hv
      rw [phase]
      rcases List.mem_append.mp hv with hv | hv
      · exact .inl hv
      · rw [List.mem_singleton.mp hv]
        exact .inr ⟨id, hfound, hidle.2⟩
    · exact hkeep
  · exact hkeep

theorem enter_move (held : s.holder = some h) : Move s (s.enter h) := by
  unfold enter
  split
  · rename_i hfound
    refine .goTo h _ held nofun ?_ nofun
    intro id' hid'
    cases hid'
    exact hfound
  · rename_i habsent
    exact .track h held habsent

theorem commitAdmit_move {id : ℕ} (held : s.holder = some h) (phase : h.phase = .commit id)
    (op : h.op = .admitClient) : Move s (s.commitAdmit h id) := by
  unfold commitAdmit
  rcases (s.states id).admitClient_cases (s.configs h.gen) h.now h.gen s.nextBucket with
    ⟨e, st, hout, hdenied⟩ | ⟨st, hout, hgranted⟩
  · rw [hout]
    exact .deny h id st held phase op hdenied
  · rw [hout]
    exact .grant h id st held phase op hgranted

theorem step_move {a : Act} (hs : s.step a = some t) (ha : ∀ config, a ≠ .write config) :
    Move s t := by
  cases a with
  | tick duration =>
    cases hs
    exact .tick duration
  | admitClient ip =>
    simp only [step] at hs
    split at hs
    · rename_i hfree
      cases hs
      exact .lock .admitClient ip s.gen _ hfree (Nat.le_refl _) fun _ => rfl
    · cases hs
  | recordAuthFailure ip gen =>
    simp only [step] at hs
    split at hs
    · rename_i hfree
      cases hs
      exact .lock .fail ip gen _ hfree.1 hfree.2 nofun
    · cases hs
  | prune ip busy full =>
    simp only [step] at hs
    split at hs
    · rename_i held
      split at hs
      · split at hs
        · cases hs
          exact visit_move ip busy full held
        · cases hs
      · cases hs
    · cases hs
  | settle =>
    simp only [step] at hs
    split at hs
    · rename_i held
      split at hs
      · cases hs
        exact settle_move held
      · cases hs
    · cases hs
  | scan ip busy =>
    simp only [step] at hs
    split at hs
    · rename_i held
      split at hs
      · rename_i phase
        split at hs
        · cases hs
          exact scan_move ip busy held phase
        · cases hs
      · cases hs
    · cases hs
  | evict =>
    simp only [step] at hs
    split at hs
    · rename_i h held
      split at hs
      · rename_i phase
        split at hs
        · cases hs
          refine .goTo h _ held ?_ nofun fun _ => .inl (by rw [phase]; rfl)
          intro v hv
          rw [phase]
          exact .inl hv
        · cases hs
      · rename_i ip victims phase
        cases hs
        exact .evict h ip victims held phase
      · cases hs
        exact .goTo h _ held nofun nofun nofun
      · cases hs
    · cases hs
  | enter =>
    simp only [step] at hs
    split at hs
    · rename_i held
      split at hs
      · cases hs
        exact enter_move held
      · cases hs
    · cases hs
  | commit =>
    simp only [step] at hs
    split at hs
    · rename_i h held
      split at hs
      · rename_i phase op
        cases hs
        exact commitAdmit_move held phase op
      · rename_i id phase op
        cases hs
        exact .commitFail h id held phase
      · cases hs
    · cases hs
  | release i =>
    obtain ⟨p, hp, rfl⟩ := Option.map_eq_some_iff.mp hs
    exact .release i p hp
  | write config => exact absurd rfl (ha config)
  | snapshot =>
    simp only [step] at hs
    split at hs
    · rename_i hw
      cases hs
      exact .snapshot _ hw.2 hw.1
    · cases hs
  | retune id =>
    simp only [step] at hs
    split at hs
    · rename_i states hu
      split at hs
      · cases hs
        exact .retune states id hu
      · cases hs
    · cases hs
  | updated =>
    simp only [step] at hs
    split at hs
    · rename_i hu
      cases hs
      exact .updated hu
    · cases hs

theorem step_write {config : RateLimits} (hs : s.step (.write config) = some t) :
    t = s.write config := by
  simp only [step] at hs
  split at hs
  · cases hs
    rfl
  · cases hs

end Controls

end Alighieri.Abuse
