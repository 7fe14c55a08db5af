import Alighieri.Abuse.Moves

/-!
# Permits and the states they count in

Pruning and eviction only remove a state after seeing it idle, and only the holder of the
`clients` mutex can make it busy again: a permit counts in the state the map holds.
-/

namespace Alighieri.Abuse
open Net List Function Controls Function ClientState

variable {states : ℕ → ClientState} {id limit : ℕ} {st : ClientState} {p : Permit} {h : Holder}
  {t : Controls} {config : RateLimits}

namespace Controls

def live (s : Controls) (id : ℕ) : ℕ := s.permits.countP fun p => p.state == id
def liveOf (s : Controls) (ip : IpAddr) : ℕ := s.permits.countP fun p => p.ip == ip

end Controls

theorem countP_eraseIdx {α : Type} (P : α → Bool) (xs : List α) {i : ℕ} {x : α}
    (h : xs[i]? = some x) :
    xs.countP P = (xs.eraseIdx i).countP P + if P x then 1 else 0 := by
  induction xs generalizing i with
  | nil => cases h
  | cons y ys ih =>
    cases i with
    | zero =>
      cases h
      exact countP_cons
    | succ i =>
      rw [List.getElem?_cons_succ] at h
      rw [eraseIdx_cons_succ, countP_cons, countP_cons, ih h]
      omega

theorem update_field {β : Type} (field : ClientState → β) (h : field st = field (states id))
    (j : ℕ) : field (update states id st j) = field (states j) := by
  by_cases hj : j = id
  · subst hj
    rw [update_self, h]
  · rw [update_of_ne hj]

/-! ### Every permit counts where the map points -/

structure Sound (s : Controls) : Prop where
  mapped : ∀ p ∈ s.permits, s.clients.lookup p.ip = some p.state
  counted : ∀ id, (s.states id).activeConnections = s.live id
  allocated : ∀ ip id, s.clients.lookup ip = some id → id < s.nextState
  victims : ∀ h, s.holder = some h → ∀ v ∈ h.phase.victims, ∀ id, s.clients.lookup v = some id →
    (s.states id).activeConnections = 0
  checkedOut : ∀ h id, s.holder = some h → h.phase = .commit id → s.clients.lookup h.ip = some id

namespace Sound

variable {s : Controls}

theorem init (config : RateLimits) : Sound (.new config) where
  mapped := nofun
  counted := fun _ => rfl
  allocated := nofun
  victims := nofun
  checkedOut := nofun

theorem busy (hs : Sound s) (hp : p ∈ s.permits) : 0 < (s.states p.state).activeConnections := by
  rw [hs.counted]
  exact countP_pos_iff.mpr ⟨p, hp, beq_self_eq_true _⟩

theorem idle_ne (hs : Sound s) {ip : IpAddr}
    (hidle : ∀ id, s.clients.lookup ip = some id → (s.states id).activeConnections = 0)
    (hp : p ∈ s.permits) : p.ip ≠ ip := by
  rintro rfl
  have hzero := hidle p.state (hs.mapped p hp)
  have hpos := hs.busy hp
  omega

theorem live_nextState (hs : Sound s) : s.live s.nextState = 0 := by
  refine countP_eq_zero.mpr ?_
  intro p hp heq
  have hlt := hs.allocated p.ip p.state (hs.mapped p hp)
  rw [beq_iff_eq] at heq
  omega

theorem forget (hs : Sound s) {ip : IpAddr} {phase : Phase} (held : s.holder = some h)
    (hidle : ∀ id, s.clients.lookup ip = some id → (s.states id).activeConnections = 0)
    (hvictims : ∀ v ∈ phase.victims, v ∈ h.phase.victims) (hcommit : ∀ id, phase ≠ .commit id) :
    Sound { s.goTo h phase with clients := Table.set s.clients ip none } := by
  have hlookup : ∀ {a id}, (Table.set s.clients ip none).lookup a = some id →
      s.clients.lookup a = some id := by
    intro a id ha
    rw [Table.lookup_set] at ha
    split at ha
    · cases ha
    · exact ha
  refine ⟨?_, hs.counted, ?_, ?_, ?_⟩
  · intro p hp
    exact (Table.lookup_set_of_ne (hs.idle_ne hidle hp)).trans (hs.mapped p hp)
  · intro a id ha
    exact hs.allocated a id (hlookup ha)
  · intro h' held' v hv id hid
    cases held'
    exact hs.victims h held v (hvictims v hv) id (hlookup hid)
  · intro h' id held' hphase
    cases held'
    exact absurd hphase (hcommit id)

theorem active_update {n : ℕ → ℕ} (hn : ∀ j, (states j).activeConnections = n j) {k : ℕ}
    (hk : st.activeConnections = k) (j : ℕ) :
    (update states id st j).activeConnections = if j = id then k else n j := by
  by_cases hj : j = id
  · subst hj
    rw [update_self, if_pos rfl, hk]
  · rw [update_of_ne hj, if_neg hj, hn]

theorem setState (hs : Sound s) (hstates : t.states = update s.states id st)
    (hactive : st.activeConnections = (s.states id).activeConnections)
    (hclients : t.clients = s.clients) (hpermits : t.permits = s.permits)
    (hnext : t.nextState = s.nextState) (hholder : t.holder = none ∨ t.holder = s.holder) :
    Sound t := by
  have hsame : ∀ j, (t.states j).activeConnections = (s.states j).activeConnections := by
    intro j
    rw [hstates]
    exact update_field activeConnections hactive j
  refine ⟨?_, ?_, ?_, ?_, ?_⟩
  · rw [hpermits, hclients]
    exact hs.mapped
  · intro j
    rw [hsame, hs.counted, live, live, hpermits]
  · rw [hclients, hnext]
    exact hs.allocated
  · intro h held v hv j hj
    rw [hsame]
    rw [hclients] at hj
    rcases hholder with hnone | hsameHolder
    · rw [hnone] at held
      cases held
    · rw [hsameHolder] at held
      exact hs.victims h held v hv j hj
  · intro h j held hphase
    rw [hclients]
    rcases hholder with hnone | hsameHolder
    · rw [hnone] at held
      cases held
    · rw [hsameHolder] at held
      exact hs.checkedOut h j held hphase

theorem write (hs : Sound s) (config : RateLimits) : Sound (s.write config) :=
  { hs with }

theorem move (hs : Sound s) (hm : Move s t) : Sound t := by
  cases hm with
  | tick | updated =>
    exact { hs with }
  | lock =>
    refine ⟨hs.mapped, hs.counted, hs.allocated, ?_, ?_⟩
    · intro h held v hv
      cases held
      cases hv
    · intro h id held hphase
      cases held
      cases hphase
  | goTo h phase held victims commit =>
    refine ⟨hs.mapped, hs.counted, hs.allocated, ?_, ?_⟩
    · intro h' held' v hv id hid
      cases held'
      rcases victims v hv with hold | ⟨id', hid', hidle⟩
      · exact hs.victims h held v hold id hid
      · have heq : some id = some id' := hid.symm.trans hid'
        cases heq
        exact hidle
    · intro h' id held' hphase
      cases held'
      exact commit id hphase
  | expire h todo ip id full held found expired =>
    refine hs.forget held ?_ (fun v hv => nomatch hv) nofun
    intro id' hid'
    have heq : some id' = some id := hid'.symm.trans found
    cases heq
    simp only [isExpired, Bool.and_eq_true, beq_iff_eq] at expired
    exact expired.1.1.1
  | evict h ip victims held phase =>
    refine hs.forget held ?_ ?_ nofun
    · intro id hid
      exact hs.victims h held ip (by rw [phase]; exact mem_cons_self) id hid
    · intro v hv
      rw [phase]
      exact mem_cons_of_mem _ hv
  | track h held absent =>
    have hne : ∀ p ∈ s.permits, p.ip ≠ h.ip := by
      intro p hp heq
      have hmapped := hs.mapped p hp
      rw [heq, absent] at hmapped
      cases hmapped
    refine ⟨?_, ?_, ?_, ?_, ?_⟩
    · intro p hp
      exact (Table.lookup_set_of_ne (hne p hp)).trans (hs.mapped p hp)
    · intro id
      refine (active_update hs.counted rfl id).trans ?_
      split
      · rename_i hid
        rw [hid]
        exact hs.live_nextState.symm
      · rfl
    · intro ip id hid
      replace hid : (Table.set s.clients h.ip (some s.nextState)).lookup ip = some id := hid
      rw [Table.lookup_set] at hid
      split at hid
      · cases hid
        exact Nat.lt_succ_self _
      · exact Nat.lt_succ_of_lt (hs.allocated ip id hid)
    · intro h' held' v hv
      cases held'
      cases hv
    · intro h' id held' hphase
      cases held'
      cases hphase
      exact Table.lookup_set_self _ _ _
  | deny h id st held phase op denied =>
    exact hs.setState rfl denied.activeConnections rfl rfl rfl (.inl rfl)
  | grant h id st held phase op granted =>
    refine ⟨?_, ?_, hs.allocated, fun h' held' => (nomatch held'), fun h' id' held' => (nomatch held')⟩
    · intro p hp
      rcases mem_cons.mp hp with rfl | hp
      · exact hs.checkedOut h id held phase
      · exact hs.mapped p hp
    · intro j
      refine (active_update hs.counted granted.activeConnections j).trans ?_
      rw [hs.counted]
      show _ = List.countP _ (_ :: s.permits)
      rw [countP_cons]
      by_cases hj : j = id
      · subst hj
        simp [live]
      · simp [live, hj, Ne.symm hj]
  | commitFail => exact hs.setState rfl rfl rfl rfl rfl (.inl rfl)
  | release i p at_ =>
    have hmem : ∀ q ∈ s.permits.eraseIdx i, q ∈ s.permits := fun q hq => mem_of_mem_eraseIdx hq
    have hactive : ∀ j, (update s.states p.state (s.states p.state).release j).activeConnections
        ≤ (s.states j).activeConnections := by
      intro j
      rw [active_update (fun _ => rfl) rfl]
      split
      · rename_i hj
        rw [hj]
        exact Nat.sub_le _ _
      · exact Nat.le_refl _
    refine ⟨fun q hq => hs.mapped q (hmem q hq), ?_, hs.allocated, ?_, hs.checkedOut⟩
    · intro j
      refine (active_update hs.counted rfl j).trans ?_
      have hcount := countP_eraseIdx (fun q : Permit => q.state == j) s.permits at_
      have hself := hs.counted p.state
      show _ = List.countP _ (s.permits.eraseIdx i)
      split
      · rename_i hj
        subst hj
        rw [if_pos (beq_self_eq_true _)] at hcount
        simp only [release, hself, live]
        omega
      · rename_i hj
        rw [if_neg (by simpa using Ne.symm hj)] at hcount
        exact hcount
    · intro h held v hv id hid
      have hzero := hs.victims h held v hv id hid
      have hle := hactive id
      show (update s.states p.state (s.states p.state).release id).activeConnections = 0
      omega
  | snapshot =>
    exact { hs with }
  | retune => exact hs.setState rfl rfl rfl rfl rfl (.inr rfl)

end Sound

/-! ### One bucket for each client -/

/- The byte rate is on in every configuration from the `i`-th to the `j`-th. -/
def Controls.Enabled (s : Controls) (i j : ℕ) : Prop :=
  ∀ k, i ≤ k → k ≤ j → (s.configs k).byteRate.isSome = true

structure Tuned (s : Controls) : Prop where
  holder_le : ∀ h, s.holder = some h → h.gen ≤ s.gen
  tuned_le : ∀ id, (s.states id).tuned ≤ s.gen
  admitting : ∀ h, s.holder = some h → h.op = .admitClient → ∀ id, (s.states id).tuned ≤ h.gen
  retuning : ∀ states h, s.update = some (.retuning states) → s.holder = some h →
    h.op = .admitClient → h.gen = s.gen
  permit_le : ∀ p ∈ s.permits, p.gen ≤ (s.states p.state).tuned
  current : ∀ p ∈ s.permits, s.Enabled p.gen (s.states p.state).tuned →
    p.bandwidth.isSome = true ∧ (s.states p.state).bandwidth = p.bandwidth
  shared : ∀ p ∈ s.permits, ∀ q ∈ s.permits, p.ip = q.ip → p.gen ≤ q.gen →
    s.Enabled p.gen q.gen → p.bandwidth.isSome = true ∧ q.bandwidth = p.bandwidth

theorem ClientState.reconcile_isSome (gen fresh : ℕ) (h : config.byteRate.isSome = true) :
    (st.reconcileBandwidth config gen fresh).bandwidth.isSome = true := by
  obtain ⟨limit, hlimit⟩ := Option.isSome_iff_exists.mp h
  cases hb : st.bandwidth <;> simp [reconcileBandwidth, hlimit, hb]

theorem ClientState.reconcile_keeps {b : Option ℕ} (gen fresh : ℕ)
    (h : config.byteRate.isSome = true) (hst : st.bandwidth = b) (hb : b.isSome = true) :
    (st.reconcileBandwidth config gen fresh).bandwidth = b := by
  obtain ⟨limit, hlimit⟩ := Option.isSome_iff_exists.mp h
  obtain ⟨bucket, rfl⟩ := Option.isSome_iff_exists.mp hb
  simp [reconcileBandwidth, hlimit, hst]

namespace Tuned

variable {s : Controls}

theorem init (config : RateLimits) : Tuned (.new config) where
  holder_le := nofun
  tuned_le := fun _ => Nat.le_refl 0
  admitting := nofun
  retuning := nofun
  permit_le := nofun
  current := nofun
  shared := nofun

theorem reconciled (hs : Tuned s) (hp : p ∈ s.permits) {gen : ℕ}
    (hgen : (s.states p.state).tuned ≤ gen) (hon : s.Enabled p.gen gen) (fresh : ℕ) :
    p.bandwidth.isSome = true ∧
      ((s.states p.state).reconcileBandwidth (s.configs gen) gen fresh).bandwidth =
        p.bandwidth := by
  have hle := hs.permit_le p hp
  obtain ⟨hsome, hsame⟩ := hs.current p hp fun k hk hk' => hon k hk (hk'.trans hgen)
  exact ⟨hsome, reconcile_keeps gen fresh (hon gen (hle.trans hgen) (Nat.le_refl _))
    hsame hsome⟩

theorem unchanged (hs : Tuned s) (hconfigs : t.configs = s.configs) (hgen : t.gen = s.gen)
    (hpermits : ∀ p ∈ t.permits, p ∈ s.permits)
    (htuned : ∀ id, (t.states id).tuned = (s.states id).tuned)
    (hband : ∀ id, (t.states id).bandwidth = (s.states id).bandwidth)
    (hholder : ∀ h, t.holder = some h → ∃ h', s.holder = some h' ∧ h.gen = h'.gen ∧ h.op = h'.op)
    (hupdate : ∀ states, t.update = some (.retuning states) →
      s.update = some (.retuning states)) : Tuned t := by
  refine ⟨?_, ?_, ?_, ?_, ?_, ?_, ?_⟩
  · intro h held
    obtain ⟨h', held', hg, -⟩ := hholder h held
    rw [hg, hgen]
    exact hs.holder_le h' held'
  · intro id
    rw [htuned, hgen]
    exact hs.tuned_le id
  · intro h held hop id
    obtain ⟨h', held', hg, hop'⟩ := hholder h held
    rw [htuned, hg]
    exact hs.admitting h' held' (hop' ▸ hop) id
  · intro states h hu held hop
    obtain ⟨h', held', hg, hop'⟩ := hholder h held
    rw [hg, hgen]
    exact hs.retuning states h' (hupdate states hu) held' (hop' ▸ hop)
  · intro p hp
    rw [htuned]
    exact hs.permit_le p (hpermits p hp)
  · intro p hp hon
    rw [htuned, Enabled, hconfigs] at hon
    rw [hband]
    exact hs.current p (hpermits p hp) hon
  · intro p hp q hq hip hle hon
    rw [Enabled, hconfigs] at hon
    exact hs.shared p (hpermits p hp) q (hpermits q hq) hip hle hon

theorem tuned_update {gen bound : ℕ} (hst : st.tuned = gen) (hle : gen ≤ bound)
    (hstates : ∀ j, (states j).tuned ≤ bound) (j : ℕ) :
    (update states id st j).tuned ≤ bound := by
  by_cases hj : j = id
  · subst hj
    rw [update_self, hst]
    exact hle
  · rw [update_of_ne hj]
    exact hstates j

theorem lock (hs : Tuned s) (hgen : h.gen ≤ s.gen) (hfresh : h.op = .admitClient → h.gen = s.gen)
    (admissions : ℕ) : Tuned { s with admissions := admissions, holder := some h } := by
  refine ⟨?_, hs.tuned_le, ?_, ?_, hs.permit_le, hs.current, hs.shared⟩
  · intro h' held'
    cases held'
    exact hgen
  · intro h' held' hop id
    cases held'
    rw [hfresh hop]
    exact hs.tuned_le id
  · intro states h' _ held' hop
    cases held'
    exact hfresh hop

theorem write (hs : Tuned s) (config : RateLimits) : Tuned (s.write config) := by
  have hon : ∀ {i j}, j ≤ s.gen → (s.write config).Enabled i j → s.Enabled i j := by
    intro i j hj hon k hk hk'
    have hne : k ≠ s.gen + 1 := by omega
    have honk := hon k hk hk'
    simp only [Controls.write, update_of_ne hne] at honk
    exact honk
  refine ⟨?_, ?_, hs.admitting, nofun, hs.permit_le, ?_, ?_⟩
  · intro h held
    exact Nat.le_succ_of_le (hs.holder_le h held)
  · intro id
    exact Nat.le_succ_of_le (hs.tuned_le id)
  · intro p hp hen
    exact hs.current p hp (hon (hs.tuned_le _) hen)
  · intro p hp q hq hip hle hen
    exact hs.shared p hp q hq hip hle (hon ((hs.permit_le q hq).trans (hs.tuned_le _)) hen)

theorem current_update (hs : Tuned s) (gen : ℕ) {fresh : ℕ} (hst : st.tuned = gen)
    (hband : st.bandwidth = ((s.states id).reconcileBandwidth (s.configs gen) gen fresh).bandwidth)
    (hle : ∀ j, (s.states j).tuned ≤ gen) (hp : p ∈ s.permits) :
    p.gen ≤ (update s.states id st p.state).tuned ∧
      (s.Enabled p.gen (update s.states id st p.state).tuned →
        p.bandwidth.isSome = true ∧
          (update s.states id st p.state).bandwidth = p.bandwidth) := by
  by_cases hp' : p.state = id
  · subst hp'
    rw [update_self, hst, hband]
    exact ⟨(hs.permit_le p hp).trans (hle _), fun hon => hs.reconciled hp (hle _) hon fresh⟩
  · rw [update_of_ne hp']
    exact ⟨hs.permit_le p hp, hs.current p hp⟩

theorem retune (hs : Tuned s) {states : List ℕ} (id : ℕ)
    (hu : s.update = some (.retuning states)) : Tuned (s.retune states id) := by
  refine ⟨hs.holder_le, ?_, ?_, ?_, ?_, ?_, hs.shared⟩
  · exact tuned_update rfl (Nat.le_refl _) hs.tuned_le
  · intro h held hop
    refine tuned_update rfl ?_ (hs.admitting h held hop)
    rw [hs.retuning states h hu held hop]
    exact Nat.le_refl _
  · intro states' h _ held hop
    exact hs.retuning states h hu held hop
  · intro p hp
    exact (hs.current_update s.gen rfl rfl hs.tuned_le hp).1
  · intro p hp hon
    exact (hs.current_update s.gen rfl rfl hs.tuned_le hp).2 hon

theorem grant (hs : Tuned s) (hsound : Sound s) (held : s.holder = some h)
    (phase : h.phase = .commit id) (op : h.op = .admitClient)
    (granted : (s.states id).Granted (s.configs h.gen) h.now h.gen s.nextBucket st) :
    Tuned { s with
      states := update s.states id st
      holder := none
      nextBucket := s.nextBucket + 1
      permits := ⟨h.ip, id, st.bandwidth, h.gen⟩ :: s.permits
      log := .admitted h.ip h.now :: s.log } := by
  have hle := hs.admitting h held op
  have hold := fun {p} (hp : p ∈ s.permits) =>
    hs.current_update h.gen granted.tuned granted.bandwidth hle hp
  have hself : s.Enabled h.gen h.gen → st.bandwidth.isSome = true := by
    intro hon
    rw [granted.bandwidth]
    exact reconcile_isSome _ _ (hon h.gen (Nat.le_refl _) (Nat.le_refl _))
  -- a permit of the same client counts in the state that is being written
  have hsame : ∀ {p}, p ∈ s.permits → p.ip = h.ip → s.Enabled p.gen h.gen →
      p.bandwidth.isSome = true ∧ st.bandwidth = p.bandwidth := by
    intro p hp hip hon
    have hstate : p.state = id := by
      have hmapped := hsound.mapped p hp
      rw [hip, hsound.checkedOut h id held phase] at hmapped
      exact (Option.some.inj hmapped).symm
    have hpair := (hold hp).2
    rw [hstate, update_self, granted.tuned] at hpair
    exact hpair hon
  refine ⟨nofun, ?_, nofun, nofun, ?_, ?_, ?_⟩
  · exact tuned_update granted.tuned (hs.holder_le h held) hs.tuned_le
  · intro p hp
    rcases mem_cons.mp hp with rfl | hp
    · show h.gen ≤ (update s.states id st id).tuned
      rw [update_self, granted.tuned]
    · exact (hold hp).1
  · intro p hp hon
    rcases mem_cons.mp hp with rfl | hp
    · replace hon : s.Enabled h.gen (update s.states id st id).tuned := hon
      show st.bandwidth.isSome = true ∧ (update s.states id st id).bandwidth = st.bandwidth
      rw [update_self, granted.tuned] at hon
      rw [update_self]
      exact ⟨hself hon, rfl⟩
    · exact (hold hp).2 hon
  · intro p hp q hq hip hpq hon
    rcases mem_cons.mp hp with rfl | hp
    · rcases mem_cons.mp hq with rfl | hq
      · exact ⟨hself hon, rfl⟩
      · -- the other one was admitted under the same configuration
        have hgen : q.gen = h.gen := by
          have hq_le := (hs.permit_le q hq).trans (hle q.state)
          exact Nat.le_antisymm hq_le hpq
        have hboth := hsame hq hip.symm (hgen.symm ▸ fun k hk hk' => hon k hk (hgen.symm ▸ hk'))
        exact ⟨hboth.2 ▸ hboth.1, hboth.2.symm⟩
    · rcases mem_cons.mp hq with rfl | hq
      · exact hsame hp hip hon
      · exact hs.shared p hp q hq hip hpq hon

theorem move (hs : Tuned s) (hsound : Sound s) (hm : Move s t) : Tuned t := by
  have hheld : ∀ {h : Holder} {phase : Phase}, s.holder = some h → ∀ h',
      some { h with phase } = some h' → ∃ h'', s.holder = some h'' ∧ h'.gen = h''.gen ∧
        h'.op = h''.op := by
    intro h phase held h' held'
    cases held'
    exact ⟨h, held, rfl, rfl⟩
  have hall : ∀ {p : Permit}, p ∈ s.permits → p ∈ s.permits := fun hp => hp
  cases hm with
  | tick =>
    exact { hs with }
  | lock op ip gen todo free old fresh => exact hs.lock old fresh _
  | goTo h phase held | expire h todo ip id full held | evict h ip victims held =>
    exact hs.unchanged rfl rfl (fun _ => hall) (fun _ => rfl) (fun _ => rfl) (hheld held)
      fun _ hu => hu
  | track h held =>
    have hst : ∀ p ∈ s.permits,
        update s.states s.nextState (.new h.now) p.state = s.states p.state := by
      intro p hp
      have hlt := hsound.allocated p.ip p.state (hsound.mapped p hp)
      exact update_of_ne (by omega) _ _
    refine ⟨?_, tuned_update rfl (Nat.zero_le _) hs.tuned_le, ?_, ?_, ?_, ?_, hs.shared⟩
    · intro h' held'
      cases held'
      exact hs.holder_le h held
    · intro h' held' hop
      cases held'
      exact tuned_update rfl (Nat.zero_le _) (hs.admitting h held hop)
    · intro states h' hu held' hop
      cases held'
      exact hs.retuning states h hu held hop
    · intro p hp
      show p.gen ≤ (update s.states s.nextState (.new h.now) p.state).tuned
      rw [hst p hp]
      exact hs.permit_le p hp
    · intro p hp hon
      have hkept := hs.current p hp
      rw [← hst p hp] at hkept
      exact hkept hon
  | deny h id st held phase op denied =>
    exact hs.unchanged rfl rfl (fun _ => hall) (update_field tuned denied.tuned)
      (update_field bandwidth denied.bandwidth) nofun fun _ hu => hu
  | grant h id st held phase op granted => exact hs.grant hsound held phase op granted
  | commitFail =>
    exact hs.unchanged rfl rfl (fun _ => hall) (update_field tuned rfl)
      (update_field bandwidth rfl) nofun fun _ hu => hu
  | release =>
    exact hs.unchanged rfl rfl (fun q hq => mem_of_mem_eraseIdx hq)
      (update_field tuned rfl)
      (update_field bandwidth rfl) (fun h held => ⟨h, held, rfl, rfl⟩) fun _ hu => hu
  | snapshot states free =>
    refine { hs with retuning := ?_ }
    intro states' h _ held
    rw [free] at held
    cases held
  | retune states id update => exact hs.retune id update
  | updated =>
    exact { hs with retuning := nofun }

end Tuned

/-! ### The concurrent limit -/

/- While every configuration so far had the limit `limit`, no counter exceeds it. -/
def Capped (limit : ℕ) (s : Controls) : Prop :=
  (∀ i ≤ s.gen, (s.configs i).concurrentConnections = some limit) →
    ∀ id, (s.states id).activeConnections ≤ limit

theorem active_update_le (hst : st.activeConnections ≤ limit)
    (hle : ∀ j, (states j).activeConnections ≤ limit) (j : ℕ) :
    (update states id st j).activeConnections ≤ limit := by
  by_cases hj : j = id
  · subst hj
    rw [update_self]
    exact hst
  · rw [update_of_ne hj]
    exact hle j

theorem Capped.write {s : Controls} (hs : Capped limit s) (config : RateLimits) :
    Capped limit (s.write config) := by
  intro hfixed
  refine hs ?_
  intro i hi
  have hold := hfixed i (Nat.le_succ_of_le hi)
  have hne : i ≠ s.gen + 1 := by omega
  simp only [Controls.write, update_of_ne hne] at hold
  exact hold

theorem Capped.move {s : Controls} (hs : Capped limit s) (htuned : Tuned s) (hm : Move s t) :
    Capped limit t := by
  cases hm with
  | tick | lock | goTo | expire | evict | snapshot | updated => exact hs
  | track => exact fun hfixed => active_update_le (Nat.zero_le _) (hs hfixed)
  | deny h id st held phase op denied =>
    intro hfixed
    exact active_update_le (denied.activeConnections ▸ hs hfixed id) (hs hfixed)
  | grant h id st held phase op granted =>
    intro hfixed
    have hfree := granted.free limit (hfixed h.gen (htuned.holder_le h held))
    exact active_update_le (by rw [granted.activeConnections]; exact hfree) (hs hfixed)
  | commitFail h id | retune states id =>
    exact fun hfixed => active_update_le (hs hfixed id) (hs hfixed)
  | release i p at_ =>
    exact fun hfixed => active_update_le ((Nat.sub_le _ _).trans (hs hfixed p.state)) (hs hfixed)

/-! ### Every interleaving -/

theorem reachable_sound {s : Controls} (h : Lts.Reachable step (.new config) s) :
    Sound s ∧ Tuned s ∧ ∀ limit, Capped limit s := by
  refine Lts.Reachable.invariant (P := fun s => Sound s ∧ Tuned s ∧ ∀ limit, Capped limit s)
    ⟨.init config, .init config, ?_⟩ ?_ h
  · intro limit _ id
    exact Nat.zero_le _
  · rintro s a t ⟨hsound, htuned, hcapped⟩ hstep
    by_cases hw : ∃ config, a = .write config
    · obtain ⟨config, rfl⟩ := hw
      rw [step_write hstep]
      exact ⟨hsound.write config, htuned.write config, fun limit => (hcapped limit).write config⟩
    · have hm := step_move hstep fun config ha => hw ⟨config, ha⟩
      exact ⟨hsound.move hm, htuned.move hsound hm, fun limit => (hcapped limit).move htuned hm⟩

theorem Sound.liveOf_le {s : Controls} (hs : Sound s)
    (hle : ∀ id, (s.states id).activeConnections ≤ limit) (ip : IpAddr) : s.liveOf ip ≤ limit := by
  cases hlookup : s.clients.lookup ip with
  | none =>
    have hzero : s.liveOf ip = 0 := by
      refine countP_eq_zero.mpr ?_
      intro p hp hip
      have hmapped := hs.mapped p hp
      rw [beq_iff_eq.mp hip, hlookup] at hmapped
      cases hmapped
    omega
  | some id =>
    have hlive : s.liveOf ip ≤ s.live id := by
      refine countP_mono_left ?_
      intro p hp hip
      have hmapped := hs.mapped p hp
      rw [beq_iff_eq.mp hip, hlookup] at hmapped
      exact beq_iff_eq.mpr (Option.some.inj hmapped).symm
    rw [← hs.counted] at hlive
    exact hlive.trans (hle id)

/-- In every interleaving: a live permit's state is the one the map holds for its client, its
counter counts the live permits, permits given while the byte rate stays on share a bucket, and no
client exceeds a concurrent limit that was never another. -/
theorem permits_accounted (config : RateLimits) (s : Controls)
    (h : Lts.Reachable step (.new config) s) :
    (∀ p ∈ s.permits, s.clients.lookup p.ip = some p.state ∧
      (s.states p.state).activeConnections = s.live p.state) ∧
    (∀ p ∈ s.permits, ∀ q ∈ s.permits, p.ip = q.ip → p.gen ≤ q.gen → s.Enabled p.gen q.gen →
      ∃ bucket, p.bandwidth = some bucket ∧ q.bandwidth = some bucket) ∧
    ∀ limit, (∀ i ≤ s.gen, (s.configs i).concurrentConnections = some limit) →
      ∀ ip, s.liveOf ip ≤ limit := by
  obtain ⟨hsound, htuned, hcapped⟩ := reachable_sound h
  refine ⟨fun p hp => ⟨hsound.mapped p hp, hsound.counted p.state⟩, ?_, ?_⟩
  · intro p hp q hq hip hle hon
    obtain ⟨hsome, hsame⟩ := htuned.shared p hp q hq hip hle hon
    obtain ⟨bucket, hbucket⟩ := Option.isSome_iff_exists.mp hsome
    exact ⟨bucket, hbucket, hsame.trans hbucket⟩
  · intro limit hfixed ip
    exact hsound.liveOf_le (hcapped limit hfixed) ip

def pairLimits : RateLimits :=
  ⟨none, none, some 2, some ⟨1000, 1, by decide, by decide, by decide⟩⟩

def pairRun : List Act :=
  [.admitClient (.v4 0x7f000001), .settle, .enter, .commit, .admitClient (.v4 0x7f000001), .settle,
    .enter, .commit]

theorem permits_accounted_pair :
    ∃ s, Lts.exec step (.new pairLimits) pairRun = some s ∧ s.permits.length = 2 ∧
      s.liveOf (.v4 0x7f000001) ≤ 2 ∧
      ∀ p ∈ s.permits, s.clients.lookup p.ip = some p.state ∧
        ∃ bucket, ∀ q ∈ s.permits, q.bandwidth = some bucket := by
  obtain ⟨s, hrun, hpermits, hgen, hconfig⟩ : ∃ s, Lts.exec step (.new pairLimits) pairRun = some s ∧
      s.permits = List.replicate 2 ⟨.v4 0x7f000001, 0, some 0, 0⟩ ∧ s.gen = 0 ∧
      s.configs 0 = pairLimits := ⟨_, rfl, rfl, rfl, rfl⟩
  have hon : ∀ i ≤ s.gen, s.configs i = pairLimits := by
    intro i hi
    have hzero : i = 0 := by omega
    rw [hzero, hconfig]
  obtain ⟨hmapped, hshared, hlimit⟩ :=
    permits_accounted pairLimits s (Lts.reachable_exec pairRun (Lts.Reachable.start _) hrun)
  refine ⟨s, hrun, by rw [hpermits]; rfl, hlimit 2 (fun i hi => by rw [hon i hi]; rfl) _, ?_⟩
  have hone : ∀ q ∈ s.permits, q = ⟨.v4 0x7f000001, 0, some 0, 0⟩ := by
    rw [hpermits]
    exact fun q => List.eq_of_mem_replicate
  intro p hp
  obtain rfl := hone p hp
  have henabled : s.Enabled 0 0 := by
    intro k hk hk'
    rw [hon k (by omega)]
    rfl
  obtain ⟨bucket, hbucket, -⟩ := hshared _ hp _ hp rfl (Nat.le_refl _) henabled
  refine ⟨(hmapped _ hp).1, bucket, fun q hq => ?_⟩
  rw [hone q hq]
  exact hbucket

end Alighieri.Abuse
