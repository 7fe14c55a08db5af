import Alighieri.Abuse.Permits
import Alighieri.Throttle

/-!
# A reload reaches every bucket (abuse.rs:71-145, 242-270; throttle.rs:47-109)

The abuse controls with what stands in the buckets; relays and the prune use buckets at any time.
An admission reads the configuration with the `clients` mutex in its hands and keeps it to its
end, so the snapshot of a reload finds every state an older configuration was written to.
-/

namespace Alighieri.Abuse
open Net Throttling Option Function Function

variable {i id : ℕ} {t : Controls} {h : Holder}

/- The rate and the capacity a limit stands for; a window is in seconds. -/
structure Follows (limit : RateLimit) (b : TokenBucket) : Prop where
  rate : b.rate = (limit.limit : ℚ) / (limit.window : ℚ)
  capacity : b.capacity = (limit.limit : ℚ)

structure MeteredControls where
  controls : Controls
  buckets : Heap

def MeteredControls.new (config : RateLimits) : MeteredControls := ⟨.new config, fun _ => .new 0 0 0⟩

/- What is done with a bucket beside retuning it: a relay meters its bytes, and the prune
asks whether it is full. -/
inductive BucketUse where
  | relay (call : TokenBucket.Call)
  | isFull

def BucketUse.run (b : TokenBucket) (now : ℚ) : BucketUse → TokenBucket
  | .relay call => (b.call now call).2
  | .isFull => (b.isFull now).2

inductive MeteredAct where
  | controls (a : Act) (now : ℚ)
  | use (bucket : ℕ) (u : BucketUse) (now : ℚ)

/- `reconcile_bandwidth` as far as it writes to buckets; `fresh` names a new one. -/
def reconcileBuckets (st : ClientState) (config : RateLimits) (fresh : ℕ) (now : ℚ)
    (buckets : Heap) : Heap :=
  match config.byteRate, st.bandwidth with
  | some limit, none =>
    match TokenBucket.fromRateWindow limit.limit limit.window now with
    | some b => update buckets fresh b
    | none => buckets
  | some limit, some i =>
    update buckets i ((buckets i).updateRateWindow limit.limit limit.window now)
  | none, _ => buckets

namespace MeteredControls

def admitted (m : MeteredControls) (h : Holder) (id : ℕ) : Heap :=
  match ((m.controls.states id).admitClient (m.controls.configs h.gen) h.now h.gen
      m.controls.nextBucket).1 with
  | .ok _ => reconcileBuckets (m.controls.states id) (m.controls.configs h.gen)
      m.controls.nextBucket h.now m.buckets
  | .error _ => m.buckets

def reconciled (m : MeteredControls) (now : ℚ) : Act → Heap
  | .commit =>
    match m.controls.holder with
    | some h =>
      match h.phase, h.op with
      | .commit id, .admitClient => m.admitted h id
      | _, _ => m.buckets
    | none => m.buckets
  | .retune id => reconcileBuckets (m.controls.states id) (m.controls.configs m.controls.gen)
      m.controls.nextBucket now m.buckets
  | _ => m.buckets

def step (m : MeteredControls) : MeteredAct → Option MeteredControls
  | .controls a now => (m.controls.step a).map fun t => ⟨t, m.reconciled now a⟩
  | .use i u now =>
    some { m with buckets := update m.buckets i (u.run (m.buckets i) now) }

end MeteredControls

open MeteredControls

/-! ### Rates -/

section Rates

variable {limit : RateLimit} {b : TokenBucket}

theorem Follows.congr {b' : TokenBucket} (h : Follows limit b) (hr : b'.rate = b.rate)
    (hc : b'.capacity = b.capacity) : Follows limit b' :=
  ⟨hr.trans h.rate, hc.trans h.capacity⟩

theorem use_rate (b : TokenBucket) (now : ℚ) (u : BucketUse) :
    (u.run b now).rate = b.rate ∧ (u.run b now).capacity = b.capacity := by
  cases u with
  | relay call => exact b.call_fixed now call
  | isFull => exact ⟨b.refill_rate now, b.refill_capacity now⟩

theorem limit_defines (limit : RateLimit) : ¬ (limit.limit = 0 ∨ (limit.window : ℚ) ≤ 0) := by
  have hpos : (0 : ℚ) < limit.window := by exact_mod_cast limit.window_pos
  rintro (hzero | hle)
  · exact absurd hzero (Nat.ne_of_gt limit.limit_pos)
  · exact absurd hle (not_le.mpr hpos)

theorem fromRateWindow_follows (limit : RateLimit) (now : ℚ) :
    ∃ b, TokenBucket.fromRateWindow limit.limit limit.window now = some b ∧ Follows limit b :=
  ⟨_, if_neg (limit_defines limit), rfl, rfl⟩

theorem updateRateWindow_follows (limit : RateLimit) (b : TokenBucket) (now : ℚ) :
    Follows limit (b.updateRateWindow limit.limit limit.window now) := by
  unfold TokenBucket.updateRateWindow
  rw [if_neg (limit_defines limit)]
  exact ⟨rfl, rfl⟩

end Rates

/-! ### One reconciliation -/

section Reconcile

variable {st : ClientState} {config : RateLimits} {gen fresh : ℕ} {now : ℚ} {buckets : Heap}

theorem reconcile_follows (h : (st.reconcileBandwidth config gen fresh).bandwidth = some i) :
    ∃ limit, config.byteRate = some limit ∧
      Follows limit (reconcileBuckets st config fresh now buckets i) := by
  unfold ClientState.reconcileBandwidth at h
  unfold reconcileBuckets
  cases hrate : config.byteRate with
  | none =>
    rw [hrate] at h
    cases h
  | some limit =>
    rw [hrate] at h
    refine ⟨limit, rfl, ?_⟩
    cases hb : st.bandwidth with
    | none =>
      rw [hb] at h
      cases h
      obtain ⟨b, hmade, hfollows⟩ := fromRateWindow_follows limit now
      simp only [hmade, update_self]
      exact hfollows
    | some j =>
      rw [hb] at h
      cases h
      simp only [update_self]
      exact updateRateWindow_follows limit _ now

theorem reconcile_own (h : (st.reconcileBandwidth config gen fresh).bandwidth = some i) :
    st.bandwidth = some i ∨ i = fresh := by
  unfold ClientState.reconcileBandwidth at h
  cases hrate : config.byteRate with
  | none =>
    rw [hrate] at h
    cases h
  | some =>
    rw [hrate] at h
    cases hb : st.bandwidth with
    | none =>
      rw [hb] at h
      cases h
      exact .inr rfl
    | some j =>
      rw [hb] at h
      cases h
      exact .inl rfl

theorem reconcile_other (hown : st.bandwidth ≠ some i) (hfresh : i ≠ fresh) :
    reconcileBuckets st config fresh now buckets i = buckets i := by
  unfold reconcileBuckets
  cases hrate : config.byteRate with
  | none => rfl
  | some limit =>
    cases hb : st.bandwidth with
    | none =>
      obtain ⟨b, hmade, -⟩ := fromRateWindow_follows limit now
      simp only [hmade]
      exact update_of_ne hfresh _ _
    | some j =>
      refine update_of_ne ?_ _ _
      rintro rfl
      exact hown hb

end Reconcile

/-! ### Steps that reconcile nothing -/

/- Buckets and reconciliations are left alone, clients may be forgotten, and whoever
takes the mutex to admit reads the configuration then. -/
structure Quiet (s t : Controls) : Prop where
  configs : t.configs = s.configs
  gen : t.gen = s.gen
  update : t.update = s.update
  nextBucket : t.nextBucket = s.nextBucket
  states : ∀ id b, (t.states id).bandwidth = some b →
    (s.states id).bandwidth = some b ∧ (t.states id).tuned = (s.states id).tuned
  clients : ∀ ip id b, t.clients.lookup ip = some id → (t.states id).bandwidth = some b →
    s.clients.lookup ip = some id
  holder : ∀ h, t.holder = some h → h.op = .admitClient →
    h.gen = s.gen ∨ ∃ h', s.holder = some h' ∧ h'.op = .admitClient ∧ h'.gen = h.gen

namespace Quiet

variable {s : Controls}

theorem of_states (hconfigs : t.configs = s.configs) (hgen : t.gen = s.gen)
    (hupdate : t.update = s.update) (hnext : t.nextBucket = s.nextBucket)
    (hstates : t.states = s.states)
    (hclients : ∀ ip id, t.clients.lookup ip = some id → s.clients.lookup ip = some id)
    (hholder : ∀ h, t.holder = some h → h.op = .admitClient →
      h.gen = s.gen ∨ ∃ h', s.holder = some h' ∧ h'.op = .admitClient ∧ h'.gen = h.gen) :
    Quiet s t := by
  refine ⟨hconfigs, hgen, hupdate, hnext, fun id b hb => ?_, fun ip id b hid _ => hclients ip id hid,
    hholder⟩
  rw [hstates] at hb ⊢
  exact ⟨hb, rfl⟩

theorem goTo (held : s.holder = some h) (phase : Phase) : Quiet s (s.goTo h phase) := by
  refine of_states rfl rfl rfl rfl rfl (fun _ _ hid => hid) ?_
  intro h' held' hop
  cases held'
  exact .inr ⟨h, held, hop, rfl⟩

theorem forget (held : s.holder = some h) (phase : Phase) (ip : IpAddr) :
    Quiet s { s.goTo h phase with clients := Table.set s.clients ip none } := by
  refine of_states rfl rfl rfl rfl rfl ?_ (goTo held phase).holder
  intro a id ha
  have ha' : (Table.set s.clients ip none).lookup a = some id := ha
  rw [Table.lookup_set] at ha'
  split at ha'
  · cases ha'
  · exact ha'

theorem lock {op : Op} {ip : IpAddr} {gen : ℕ} (hfresh : op = .admitClient → gen = s.gen) :
    Quiet s (s.lockClients op ip gen) := by
  refine of_states rfl rfl rfl rfl rfl (fun _ _ hid => hid) ?_
  intro h held hop
  cases held
  exact .inl (hfresh hop)

theorem visit (held : s.holder = some h) (todo : List IpAddr) (ip : IpAddr) (busy full : Bool) :
    Quiet s (s.visit h todo ip busy full) := by
  unfold Controls.visit
  dsimp only
  split
  · split
    · exact forget held _ ip
    · exact goTo held _
  · exact goTo held _

theorem enter (held : s.holder = some h) : Quiet s (s.enter h) := by
  unfold Controls.enter
  split
  · exact goTo held _
  · -- the new state has no bucket yet
    refine ⟨rfl, rfl, rfl, rfl, ?_, ?_, (goTo held _).holder⟩
    · intro id b hb
      have hb' : (Function.update s.states s.nextState (.new h.now) id).bandwidth = some b := hb
      show _ ∧ (Function.update s.states s.nextState (.new h.now) id).tuned = _
      by_cases hid : id = s.nextState
      · subst hid
        rw [update_self] at hb'
        cases hb'
      · rw [update_of_ne hid] at hb' ⊢
        exact ⟨hb', rfl⟩
    · intro ip id b hid hb
      have hid' : (Table.set s.clients h.ip (some s.nextState)).lookup ip = some id := hid
      have hb' : (Function.update s.states s.nextState (.new h.now) id).bandwidth = some b := hb
      rw [Table.lookup_set] at hid'
      split at hid'
      · cases hid'
        rw [update_self] at hb'
        cases hb'
      · exact hid'

theorem setState {st : ClientState} (hstates : t.states = Function.update s.states id st)
    (hband : st.bandwidth = (s.states id).bandwidth) (htuned : st.tuned = (s.states id).tuned)
    (hconfigs : t.configs = s.configs) (hgen : t.gen = s.gen) (hupdate : t.update = s.update)
    (hnext : t.nextBucket = s.nextBucket) (hclients : t.clients = s.clients)
    (hholder : t.holder = none ∨ t.holder = s.holder) : Quiet s t := by
  refine ⟨hconfigs, hgen, hupdate, hnext, fun j b hb => ?_, fun ip j b hj _ => by rwa [hclients] at hj,
    fun h held hop => ?_⟩
  · rw [hstates] at hb ⊢
    rw [update_field ClientState.bandwidth hband] at hb
    exact ⟨hb, update_field ClientState.tuned htuned j⟩
  · rcases hholder with hnone | hsame
    · rw [hnone] at held
      cases held
    · rw [hsame] at held
      exact .inr ⟨h, held, hop, rfl⟩

end Quiet

def Act.quiet : Act → Bool
  | .commit | .write _ | .snapshot | .retune _ | .updated => false
  | _ => true

theorem Controls.step_quiet {s : Controls} {a : Act} (hs : s.step a = some t)
    (ha : a.quiet = true) : Quiet s t := by
  cases a with
  | tick =>
    cases hs
    exact .of_states rfl rfl rfl rfl rfl (fun _ _ hid => hid) fun h held hop =>
      .inr ⟨h, held, hop, rfl⟩
  | admitClient ip =>
    obtain ⟨-, hs⟩ := ite_none_right_eq_some.mp hs
    cases hs
    exact .lock fun _ => rfl
  | recordAuthFailure =>
    obtain ⟨-, hs⟩ := ite_none_right_eq_some.mp hs
    cases hs
    exact .lock fun hop => by cases hop
  | prune ip busy full =>
    simp only [step] at hs
    split at hs
    · rename_i held
      split at hs
      · obtain ⟨-, hs⟩ := ite_none_right_eq_some.mp hs
        cases hs
        exact .visit held _ ip busy full
      · cases hs
    · cases hs
  | settle =>
    simp only [step] at hs
    split at hs
    · rename_i held
      obtain ⟨-, hs⟩ := ite_none_right_eq_some.mp hs
      cases hs
      unfold settle
      split <;> exact .goTo held _
    · cases hs
  | scan ip busy =>
    simp only [step] at hs
    split at hs
    · rename_i held
      split at hs
      · obtain ⟨-, hs⟩ := ite_none_right_eq_some.mp hs
        cases hs
        unfold scan
        split
        · split <;> exact .goTo held _
        · exact .goTo held _
      · cases hs
    · cases hs
  | evict =>
    simp only [step] at hs
    split at hs
    · rename_i held
      split at hs
      · obtain ⟨-, hs⟩ := ite_none_right_eq_some.mp hs
        cases hs
        exact .goTo held _
      · cases hs
        exact .forget held _ _
      · cases hs
        exact .goTo held _
      · cases hs
    · cases hs
  | enter =>
    simp only [step] at hs
    split at hs
    · rename_i held
      obtain ⟨-, hs⟩ := ite_none_right_eq_some.mp hs
      cases hs
      exact .enter held
    · cases hs
  | release i =>
    obtain ⟨p, -, rfl⟩ := map_eq_some_iff.mp hs
    exact .setState rfl rfl rfl rfl rfl rfl rfl rfl (.inr rfl)
  | commit | write | snapshot | retune | updated => cases ha

/-! ### Which configuration a bucket follows -/

structure MeteredControls.Inv (m : MeteredControls) : Prop where
  follows : ∀ id i, (m.controls.states id).bandwidth = some i → ∃ limit,
    (m.controls.configs (m.controls.states id).tuned).byteRate = some limit ∧
      Follows limit (m.buckets i)
  allocated : ∀ id i, (m.controls.states id).bandwidth = some i → i < m.controls.nextBucket
  owner : ∀ id id' i, (m.controls.states id).bandwidth = some i →
    (m.controls.states id').bandwidth = some i → id = id'
  fresh : m.controls.update ≠ some .written → ∀ h, m.controls.holder = some h →
    h.op = .admitClient → h.gen = m.controls.gen
  covered : m.controls.update ≠ some .written → ∀ ip id i, m.controls.clients.lookup ip = some id →
    (m.controls.states id).bandwidth = some i → (m.controls.states id).tuned = m.controls.gen ∨
      ∃ states, m.controls.update = some (.retuning states) ∧ id ∈ states

namespace MeteredControls.Inv

variable {m : MeteredControls}

theorem init (config : RateLimits) : (new config).Inv :=
  ⟨nofun, nofun, nofun, nofun, nofun⟩

theorem quiet (hm : m.Inv) (hq : Quiet m.controls t) : Inv ⟨t, m.buckets⟩ := by
  refine ⟨?_, ?_, ?_, ?_, ?_⟩
  · intro id i hi
    obtain ⟨hold, htuned⟩ := hq.states id i hi
    show ∃ limit, (t.configs (t.states id).tuned).byteRate = some limit ∧ _
    rw [hq.configs, htuned]
    exact hm.follows id i hold
  · intro id i hi
    show i < t.nextBucket
    rw [hq.nextBucket]
    exact hm.allocated id i (hq.states id i hi).1
  · intro id id' i hi hi'
    exact hm.owner id id' i (hq.states id i hi).1 (hq.states id' i hi').1
  · intro hu h held hop
    have hu' : t.update ≠ some .written := hu
    rw [hq.update] at hu'
    show h.gen = t.gen
    rw [hq.gen]
    rcases hq.holder h held hop with hgen | ⟨h', held', hop', hgen⟩
    · exact hgen
    · rw [← hgen]
      exact hm.fresh hu' h' held' hop'
  · intro hu ip id i hid hi
    have hu' : t.update ≠ some .written := hu
    rw [hq.update] at hu'
    obtain ⟨hold, htuned⟩ := hq.states id i hi
    show (t.states id).tuned = t.gen ∨ ∃ states, t.update = _ ∧ _
    rw [htuned, hq.gen, hq.update]
    exact hm.covered hu' ip id i (hq.clients ip id i hid hi) hold

theorem use (hm : m.Inv) (i : ℕ) (u : BucketUse) (now : ℚ) :
    Inv { m with buckets := update m.buckets i (u.run (m.buckets i) now) } := by
  refine { hm with follows := ?_ }
  intro id j hj
  obtain ⟨limit, hlimit, hfollows⟩ := hm.follows id j hj
  refine ⟨limit, hlimit, ?_⟩
  show Follows limit (update m.buckets i _ j)
  by_cases hji : j = i
  · subst hji
    rw [update_self]
    obtain ⟨hrate, hcap⟩ := use_rate (m.buckets j) now u
    exact hfollows.congr hrate hcap
  · rw [update_of_ne hji]
    exact hfollows

theorem write (hm : m.Inv) (htuned : Tuned m.controls) (config : RateLimits) :
    Inv ⟨m.controls.write config, m.buckets⟩ := by
  refine ⟨?_, hm.allocated, hm.owner, fun hu => absurd rfl hu, fun hu => absurd rfl hu⟩
  intro id i hi
  have hle := htuned.tuned_le id
  have hne : (m.controls.states id).tuned ≠ m.controls.gen + 1 := by omega
  show ∃ limit, (update m.controls.configs (m.controls.gen + 1) config
    (m.controls.states id).tuned).byteRate = some limit ∧ _
  rw [update_of_ne hne]
  exact hm.follows id i hi

/- The snapshot is taken while nobody holds the mutex, so nobody holds an older clone of
the configuration. -/
theorem snapshot (hm : m.Inv) (free : m.controls.holder = none) :
    Inv ⟨{ m.controls with update := some (.retuning m.controls.tracked) }, m.buckets⟩ := by
  refine ⟨hm.follows, hm.allocated, hm.owner, ?_, ?_⟩
  · intro _ h held
    have held' : m.controls.holder = some h := held
    rw [free] at held'
    cases held'
  · intro _ ip id i hid _
    refine .inr ⟨_, rfl, ?_⟩
    refine List.mem_filterMap.mpr ⟨ip, ?_, hid⟩
    rw [Table.mem_keys_iff]
    exact isSome_iff_exists.mpr ⟨id, hid⟩

theorem reconcile (hm : m.Inv) {gen : ℕ} {st : ClientState} (now : ℚ)
    (hstates : t.states = update m.controls.states id st) (htuned : st.tuned = gen)
    (hband : st.bandwidth = ((m.controls.states id).reconcileBandwidth (m.controls.configs gen) gen
      m.controls.nextBucket).bandwidth) (hconfigs : t.configs = m.controls.configs)
    (hnext : t.nextBucket = m.controls.nextBucket + 1)
    (hfresh : t.update ≠ some .written → ∀ h, t.holder = some h → h.op = .admitClient → h.gen = t.gen)
    (hcovered : t.update ≠ some .written → ∀ ip j i, t.clients.lookup ip = some j →
      (t.states j).bandwidth = some i → (t.states j).tuned = t.gen ∨
        ∃ states, t.update = some (.retuning states) ∧ j ∈ states) :
    Inv ⟨t, reconcileBuckets (m.controls.states id) (m.controls.configs gen) m.controls.nextBucket now
      m.buckets⟩ := by
  have hself : t.states id = st := by rw [hstates, update_self]
  have hother : ∀ {j}, j ≠ id → t.states j = m.controls.states j := fun hj => by
    rw [hstates, update_of_ne hj]
  -- a bucket of the written state is its own or new
  have hold : ∀ {i}, (t.states id).bandwidth = some i →
      (m.controls.states id).bandwidth = some i ∨ i = m.controls.nextBucket := by
    intro i hi
    rw [hself, hband] at hi
    exact reconcile_own hi
  have hdistinct : ∀ {j i}, j ≠ id → (m.controls.states j).bandwidth = some i →
      (t.states id).bandwidth ≠ some i := by
    intro j i hj hi hid
    rcases hold hid with hi' | hi'
    · exact hj (hm.owner j id i hi hi')
    · have hlt := hm.allocated j i hi
      omega
  refine ⟨?_, ?_, ?_, hfresh, hcovered⟩
  · intro j i hi
    show ∃ limit, (t.configs (t.states j).tuned).byteRate = some limit ∧ _
    have hi' : (t.states j).bandwidth = some i := hi
    rw [hconfigs]
    by_cases hj : j = id
    · subst hj
      rw [hself, hband] at hi'
      rw [hself, htuned]
      exact reconcile_follows hi'
    · rw [hother hj] at hi' ⊢
      obtain ⟨limit, hlimit, hfollows⟩ := hm.follows j i hi'
      refine ⟨limit, hlimit, ?_⟩
      have hsame : reconcileBuckets (m.controls.states id) (m.controls.configs gen)
          m.controls.nextBucket now m.buckets i = m.buckets i := by
        refine reconcile_other ?_ (Nat.ne_of_lt (hm.allocated j i hi'))
        intro hid
        exact hj (hm.owner j id i hi' hid)
      show Follows limit (reconcileBuckets _ _ _ now m.buckets i)
      rw [hsame]
      exact hfollows
  · intro j i hi
    show i < t.nextBucket
    have hi' : (t.states j).bandwidth = some i := hi
    rw [hnext]
    by_cases hj : j = id
    · subst hj
      rcases hold hi' with hi' | hi'
      · exact Nat.lt_succ_of_lt (hm.allocated j i hi')
      · omega
    · rw [hother hj] at hi'
      exact Nat.lt_succ_of_lt (hm.allocated j i hi')
  · intro j j' i hi hi'
    have h1 : (t.states j).bandwidth = some i := hi
    have h2 : (t.states j').bandwidth = some i := hi'
    by_cases hj : j = id
    · by_cases hj' : j' = id
      · rw [hj, hj']
      · rw [hother hj'] at h2
        rw [hj] at h1
        exact absurd h1 (hdistinct hj' h2)
    · rw [hother hj] at h1
      by_cases hj' : j' = id
      · rw [hj'] at h2
        exact absurd h2 (hdistinct hj h1)
      · rw [hother hj'] at h2
        exact hm.owner j j' i h1 h2

theorem retune (hm : m.Inv) {states : List ℕ} (id : ℕ) (now : ℚ)
    (hu : m.controls.update = some (.retuning states)) :
    Inv ⟨m.controls.retune states id, reconcileBuckets (m.controls.states id)
      (m.controls.configs m.controls.gen) m.controls.nextBucket now m.buckets⟩ := by
  have hrun : m.controls.update ≠ some .written := by
    rw [hu]
    exact fun he => by cases he
  refine hm.reconcile now rfl rfl rfl rfl rfl (fun _ => hm.fresh hrun) ?_
  intro _ ip j i hj hi
  show (update m.controls.states id _ j).tuned = _ ∨ _
  by_cases hjd : j = id
  · subst hjd
    rw [update_self]
    exact .inl rfl
  · have hi' : (update m.controls.states id _ j).bandwidth = some i := hi
    rw [update_of_ne hjd] at hi' ⊢
    rcases hm.covered hrun ip j i hj hi' with hgen | ⟨states', hu', hmem⟩
    · exact .inl hgen
    · rw [hu] at hu'
      cases hu'
      exact .inr ⟨_, rfl, (List.mem_erase_of_ne hjd).mpr hmem⟩

theorem updated (hm : m.Inv) (hu : m.controls.update = some (.retuning [])) :
    Inv ⟨{ m.controls with update := none }, m.buckets⟩ := by
  have hrun : m.controls.update ≠ some .written := by
    rw [hu]
    exact fun he => by cases he
  refine ⟨hm.follows, hm.allocated, hm.owner, fun _ => hm.fresh hrun, ?_⟩
  intro _ ip id i hid hi
  rcases hm.covered hrun ip id i hid hi with hgen | ⟨states, hu', hmem⟩
  · exact .inl hgen
  · rw [hu] at hu'
    cases hu'
    cases hmem

theorem commitAdmit (hm : m.Inv) (held : m.controls.holder = some h) (op : h.op = .admitClient) :
    Inv ⟨m.controls.commitAdmit h id, m.admitted h id⟩ := by
  unfold Controls.commitAdmit admitted
  rcases (m.controls.states id).admitClient_cases (m.controls.configs h.gen) h.now h.gen
    m.controls.nextBucket with ⟨e, st, hout, denied⟩ | ⟨st, hout, granted⟩
  · rw [hout]
    exact hm.quiet (.setState rfl denied.bandwidth denied.tuned rfl rfl rfl rfl rfl (.inl rfl))
  · rw [hout]
    refine hm.reconcile h.now rfl granted.tuned granted.bandwidth rfl rfl ?_ ?_
    · intro _ h' held'
      cases held'
    · intro hu ip j i hj hi
      have hu' : m.controls.update ≠ some .written := hu
      show (update m.controls.states id st j).tuned = m.controls.gen ∨ _
      by_cases hjd : j = id
      · subst hjd
        rw [update_self, granted.tuned]
        exact .inl (hm.fresh hu' h held op)
      · have hi' : (update m.controls.states id st j).bandwidth = some i := hi
        rw [update_of_ne hjd] at hi' ⊢
        exact hm.covered hu' ip j i hj hi'

theorem commit (hm : m.Inv) (now : ℚ) (hs : m.controls.step .commit = some t) :
    Inv ⟨t, m.reconciled now .commit⟩ := by
  cases held : m.controls.holder with
  | none =>
    simp only [Controls.step, held] at hs
    cases hs
  | some h =>
    simp only [Controls.step, held] at hs
    simp only [reconciled, held]
    cases phase : h.phase with
    | commit id =>
      cases op : h.op with
      | admitClient =>
        simp only [phase, op] at hs
        cases hs
        exact hm.commitAdmit held op
      | fail =>
        simp only [phase, op] at hs
        cases hs
        exact hm.quiet (.setState rfl rfl rfl rfl rfl rfl rfl rfl (.inl rfl))
    | _ =>
      simp only [phase] at hs
      cases hs

theorem step {m' : MeteredControls} {a : MeteredAct} (hm : m.Inv) (htuned : Tuned m.controls)
    (hs : m.step a = some m') : m'.Inv := by
  cases a with
  | use i u now =>
    cases hs
    exact hm.use i u now
  | controls a now =>
    obtain ⟨t, ht, rfl⟩ := map_eq_some_iff.mp hs
    cases a with
    | commit => exact hm.commit now ht
    | write config =>
      rw [Controls.step_write ht]
      exact hm.write htuned config
    | snapshot =>
      obtain ⟨hw, ht⟩ := ite_none_right_eq_some.mp ht
      cases ht
      exact hm.snapshot hw.2
    | retune id =>
      simp only [Controls.step] at ht
      split at ht
      · rename_i hu
        obtain ⟨-, ht⟩ := ite_none_right_eq_some.mp ht
        cases ht
        exact hm.retune id now hu
      · cases ht
    | updated =>
      obtain ⟨hu, ht⟩ := ite_none_right_eq_some.mp ht
      cases ht
      exact hm.updated hu
    | _ => exact hm.quiet (Controls.step_quiet ht rfl)

end MeteredControls.Inv

/-! ### Every interleaving -/

namespace MeteredControls

/-- The buckets of the tracked clients are those of a configuration. -/
def Obeys (m : MeteredControls) (config : RateLimits) : Prop :=
  ∀ ip id, m.controls.clients.lookup ip = some id →
    match config.byteRate with
    | some limit => ∀ i, (m.controls.states id).bandwidth = some i → Follows limit (m.buckets i)
    | none => (m.controls.states id).bandwidth = none

theorem Inv.obeys {m : MeteredControls} (hm : m.Inv) (hu : m.controls.update = none) :
    m.Obeys (m.controls.configs m.controls.gen) := by
  have hrun : m.controls.update ≠ some .written := by
    rw [hu]
    exact fun he => by cases he
  have hfollows : ∀ ip id i, m.controls.clients.lookup ip = some id →
      (m.controls.states id).bandwidth = some i → ∃ limit,
        (m.controls.configs m.controls.gen).byteRate = some limit ∧ Follows limit (m.buckets i) := by
    intro ip id i hid hi
    rcases hm.covered hrun ip id i hid hi with hgen | ⟨states, hu', -⟩
    · rw [← hgen]
      exact hm.follows id i hi
    · rw [hu] at hu'
      cases hu'
  intro ip id hid
  split
  · rename_i hlimit
    intro i hi
    obtain ⟨limit', hlimit', hf⟩ := hfollows ip id i hid hi
    rw [hlimit] at hlimit'
    cases hlimit'
    exact hf
  · rename_i hnone
    cases hb : (m.controls.states id).bandwidth with
    | none => rfl
    | some i =>
      obtain ⟨limit, hlimit, -⟩ := hfollows ip id i hid hb
      rw [hnone] at hlimit
      cases hlimit

end MeteredControls

theorem reachable_inv {config : RateLimits} {m : MeteredControls}
    (h : Lts.Reachable step (.new config) m) :
    Lts.Reachable Controls.step (.new config) m.controls ∧ m.Inv := by
  refine Lts.Reachable.invariant
    (P := fun m => Lts.Reachable Controls.step (.new config) m.controls ∧ m.Inv)
    ⟨.start _, .init config⟩ ?_ h
  rintro m a m' ⟨hreach, hinv⟩ hs
  refine ⟨?_, hinv.step (reachable_sound hreach).2.1 hs⟩
  cases a with
  | use =>
    cases hs
    exact hreach
  | controls a now =>
    obtain ⟨t, ht, rfl⟩ := map_eq_some_iff.mp hs
    exact hreach.next ht

/- A step of the run after a reload has written its configuration, before the next one. -/
def MeteredAct.sameReload : MeteredAct → Prop
  | .controls (.write _) _ => False
  | _ => True

theorem step_configs {s : Controls} {a : Act} (hs : s.step a = some t)
    (ha : ∀ config, a ≠ .write config) : t.configs = s.configs ∧ t.gen = s.gen := by
  have hm := Controls.step_move hs ha
  cases hm <;> exact ⟨rfl, rfl⟩

/-- From the return of a reload to the next one, whatever the others do, the buckets of the
tracked clients have the rate and the capacity of its configuration, and there are none without a
byte rate. -/
theorem reload_reaches_buckets (initial config : RateLimits) (now : ℚ)
    {m₀ m₁ m : MeteredControls} (h₀ : Lts.Reachable step (.new initial) m₀)
    (hwrite : m₀.step (.controls (.write config) now) = some m₁)
    (hrun : Lts.ReachableBy step (fun _ a => a.sameReload) m₁ m)
    (hreturned : m.controls.update = none) : m.Obeys config := by
  have hcurrent : Lts.Reachable step (.new initial) m ∧
      m.controls.configs m.controls.gen = config := by
    refine hrun.invariant (P := fun m => Lts.Reachable step (.new initial) m ∧
      m.controls.configs m.controls.gen = config) ⟨h₀.next hwrite, ?_⟩ ?_
    · obtain ⟨t, ht, rfl⟩ := Option.map_eq_some_iff.mp hwrite
      rw [Controls.step_write ht]
      exact update_self ..
    · rintro m a m' ⟨hreach, hconfig⟩ hsame hs
      refine ⟨hreach.next hs, ?_⟩
      cases a with
      | use =>
        cases hs
        exact hconfig
      | controls a t =>
        obtain ⟨c, hc, rfl⟩ := Option.map_eq_some_iff.mp hs
        have ha : ∀ config, a ≠ .write config := by
          rintro config rfl
          exact hsame
        obtain ⟨hconfigs, hgen⟩ := step_configs hc ha
        show c.configs c.gen = config
        rw [hconfigs, hgen]
        exact hconfig
  have hobeys := (reachable_inv hcurrent.1).2.obeys hreturned
  rwa [hcurrent.2] at hobeys

def halfLimits : RateLimits :=
  ⟨none, none, some 2,
    some ⟨500, 1, Nat.succ_pos 499, Nat.le_of_ble_eq_true rfl, Nat.one_pos⟩⟩

def overtakenRun : List MeteredAct :=
  [.controls .settle 0, .controls .enter 0, .controls .commit 0, .controls .snapshot 0,
    .controls (.retune 0) 0, .controls .updated 0]

theorem reload_reaches_buckets_overtaken :
    ∃ m₀ m₁ m, Lts.exec step (.new pairLimits)
        [.controls (.admitClient (.v4 0x7f000001)) 0] = some m₀ ∧
      m₀.step (.controls (.write halfLimits) 0) = some m₁ ∧
      Lts.exec step m₁ overtakenRun = some m ∧
      (m.controls.states 0).bandwidth = some 0 ∧ (m.buckets 0).rate = 500 ∧
      (m.buckets 0).capacity = 500 := by
  obtain ⟨m₀, m₁, m, h₀, h₁, hrun, hup, hclient, hband⟩ : ∃ m₀ m₁ m,
      Lts.exec step (.new pairLimits)
        [.controls (.admitClient (.v4 0x7f000001)) 0] = some m₀ ∧
      m₀.step (.controls (.write halfLimits) 0) = some m₁ ∧
      Lts.exec step m₁ overtakenRun = some m ∧ m.controls.update = none ∧
      m.controls.clients.lookup (.v4 0x7f000001) = some 0 ∧
      (m.controls.states 0).bandwidth = some 0 := ⟨_, _, _, rfl, rfl, rfl, rfl, rfl, rfl⟩
  have hreach := Lts.reachable_exec _ (Lts.Reachable.start _) h₀
  have hsame : ∀ a ∈ overtakenRun, ∀ _ : MeteredControls, a.sameReload := by
    simp [overtakenRun, MeteredAct.sameReload]
  have hby := Lts.reachableBy_exec overtakenRun hsame .start hrun
  have hobeys := reload_reaches_buckets pairLimits halfLimits 0 hreach h₁ hby hup
  have hfollows := hobeys _ 0 hclient 0 hband
  refine ⟨m₀, m₁, m, h₀, h₁, hrun, hband, ?_, ?_⟩
  · rw [hfollows.rate]
    norm_num
  · rw [hfollows.capacity]
    norm_num

end Alighieri.Abuse
