import Alighieri.Abuse.Permits

/-!
# One client's view of the controls

Under one configuration and below the cap on tracked clients, a step does to a client what one
of six moves says.
-/

namespace Alighieri.Abuse
open Net Controls Table

variable {t : Controls} {ip : IpAddr} {id : ℕ} {st : ClientState}

/-! ### Windows -/

section Windows

variable {w : Window} {now : ℕ} (rate : RateLimit)

theorem reset_cases (hstart : w.started ≤ now) :
    (now < w.started + rate.window ∧ resetIfExpired w rate now = w) ∨
      (w.started + rate.window ≤ now ∧ resetIfExpired w rate now = ⟨now, 0⟩) := by
  unfold resetIfExpired
  split
  · exact .inr ⟨by omega, rfl⟩
  · exact .inl ⟨by omega, rfl⟩

theorem one_le_maxU64 : 1 ≤ maxU64 := by decide

theorem increment_cases (hstart : w.started ≤ now) :
    (now < w.started + rate.window ∧
        (incrementWindow w (some rate) now).2 = ⟨w.started, min (w.count + 1) maxU64⟩) ∨
      (w.started + rate.window ≤ now ∧ (incrementWindow w (some rate) now).2 = ⟨now, 1⟩) := by
  rcases reset_cases rate hstart with ⟨hlt, heq⟩ | ⟨hle, heq⟩
  · exact .inl ⟨hlt, by simp only [incrementWindow, heq]⟩
  · refine .inr ⟨hle, ?_⟩
    simp only [incrementWindow, heq, Nat.zero_add, Nat.min_eq_left one_le_maxU64]

theorem increment_within (h : (incrementWindow w (some rate) now).1 = false) :
    (incrementWindow w (some rate) now).2.count ≤ rate.limit := by
  simp only [incrementWindow, decide_eq_false_iff_not, Nat.not_lt] at h ⊢
  exact h

theorem prunable_cases (hstart : w.started ≤ now)
    (h : windowIsPrunable w (some rate) now = true) :
    w.count = 0 ∨ w.started + rate.window ≤ now := by
  simp only [windowIsPrunable, decide_eq_true_eq] at h
  omega

end Windows

/-! ### The clock and the log -/

def Event.admittedAt (ip : IpAddr) : Event → Option ℕ
  | .admitted ip' now => if ip' = ip then some now else none
  | .failed _ _ => none

def Event.failedAt (ip : IpAddr) : Event → Option ℕ
  | .failed ip' now => if ip' = ip then some now else none
  | .admitted _ _ => none

namespace Controls

/- The last reading of the clock that counts: the holder's, or the next one's. -/
def time (s : Controls) : ℕ :=
  match s.holder with
  | some h => h.now
  | none => s.clock

theorem time_of_held {s : Controls} {h : Holder} (held : s.holder = some h) : s.time = h.now := by
  rw [time, held]

def admits (s : Controls) (ip : IpAddr) : List ℕ := s.log.filterMap (Event.admittedAt ip)
def failures (s : Controls) (ip : IpAddr) : List ℕ := s.log.filterMap (Event.failedAt ip)

end Controls

/-! ### One client's view -/

/- What concerns one client: its windows for connections and for failures, if it is
tracked, the clock, and its part of the log. -/
structure View where
  windows : Option (Window × Window)
  time : ℕ
  admits : List ℕ
  failures : List ℕ

def Controls.view (s : Controls) (ip : IpAddr) : View where
  windows := (s.clients.lookup ip).map fun id =>
    ((s.states id).connections, (s.states id).authFailures)
  time := s.time
  admits := s.admits ip
  failures := s.failures ip

/-- What a step can do to a client under the configuration `config`. -/
inductive View.Move (config : RateLimits) (v v' : View) : Prop where
  | pass (windows : v'.windows = v.windows) (later : v.time ≤ v'.time)
      (admits : v'.admits = v.admits) (failures : v'.failures = v.failures)
  | forget (c a : Window) (found : v.windows = some (c, a))
      (connections : windowIsPrunable c config.connectionRate v.time = true)
      (authFailures : windowIsPrunable a config.authFailureRate v.time = true)
      (windows : v'.windows = none) (time : v'.time = v.time)
      (admits : v'.admits = v.admits) (failures : v'.failures = v.failures)
  | track (absent : v.windows = none) (windows : v'.windows = some (.new v.time, .new v.time))
      (time : v'.time = v.time) (admits : v'.admits = v.admits)
      (failures : v'.failures = v.failures)
  | deny (c c' a : Window) (found : v.windows = some (c, a))
      (connections : c' = c ∨ c' = (incrementWindow c config.connectionRate v.time).2)
      (windows :
        v'.windows = some (c', (isLimitExceeded a config.authFailureRate v.time).2))
      (later : v.time ≤ v'.time) (admits : v'.admits = v.admits)
      (failures : v'.failures = v.failures)
  | grant (c a : Window) (found : v.windows = some (c, a))
      (unblocked : (isLimitExceeded a config.authFailureRate v.time).1 = false)
      (within : (incrementWindow c config.connectionRate v.time).1 = false)
      (windows : v'.windows = some ((incrementWindow c config.connectionRate v.time).2,
        (isLimitExceeded a config.authFailureRate v.time).2))
      (later : v.time ≤ v'.time) (admits : v'.admits = v.time :: v.admits)
      (failures : v'.failures = v.failures)
  | fail (c a : Window) (found : v.windows = some (c, a))
      (windows :
        v'.windows = some (c, (incrementWindow a config.authFailureRate v.time).2))
      (later : v.time ≤ v'.time) (admits : v'.admits = v.admits)
      (failures : v'.failures = v.time :: v.failures)

/- Clients have states of their own, the clock runs on, and nobody is making room. -/
structure Placed (config : RateLimits) (s : Controls) : Prop where
  configs : ∀ i, s.configs i = config
  now_le : ∀ h, s.holder = some h → h.now ≤ s.clock
  distinct : ∀ a b id, s.clients.lookup a = some id → s.clients.lookup b = some id → a = b
  roomy : ∀ h, s.holder = some h → h.phase.makesRoom = false

namespace Placed

variable {config : RateLimits} {s : Controls}

theorem init (config : RateLimits) : Placed config (.new config) :=
  ⟨fun _ => rfl, nofun, nofun, nofun⟩

theorem move (hs : Placed config s) (hsound : Sound s)
    (hcap : size s.clients < maxTrackedClients) (hm : Abuse.Move s t) : Placed config t := by
  have hdistinct : ∀ {ip : IpAddr} a b id, (set s.clients ip none).lookup a = some id →
      (set s.clients ip none).lookup b = some id → a = b := by
    intro ip a b id ha hb
    rw [lookup_set] at ha hb
    split at ha
    · cases ha
    split at hb
    · cases hb
    · exact hs.distinct a b id ha hb
  cases hm with
  | tick duration =>
    refine { hs with now_le := ?_ }
    intro h held
    have hle := hs.now_le h held
    show h.now ≤ s.clock + duration
    omega
  | lock =>
    refine ⟨hs.configs, ?_, hs.distinct, ?_⟩
    · intro h held
      cases held
      exact Nat.le_refl _
    · intro h held
      cases held
      rfl
  | goTo h phase held victims commit crowded =>
    refine ⟨hs.configs, ?_, hs.distinct, ?_⟩
    · intro h' held'
      cases held'
      exact hs.now_le h held
    · intro h' held'
      cases held'
      cases hroom : phase.makesRoom with
      | false => rfl
      | true =>
        rcases crowded hroom with hmaking | hfull
        · rw [hs.roomy h held] at hmaking
          cases hmaking
        · omega
  | expire h todo ip id full held =>
    refine ⟨hs.configs, ?_, hdistinct, ?_⟩
    · intro h' held'
      cases held'
      exact hs.now_le h held
    · intro h' held'
      cases held'
      rfl
  | evict h ip victims held phase =>
    have hroomy := hs.roomy h held
    rw [phase] at hroomy
    cases hroomy
  | track h held absent =>
    refine ⟨hs.configs, ?_, ?_, ?_⟩
    · intro h' held'
      cases held'
      exact hs.now_le h held
    · intro a b id ha hb
      replace ha : (set s.clients h.ip (some s.nextState)).lookup a = some id := ha
      replace hb : (set s.clients h.ip (some s.nextState)).lookup b = some id := hb
      rw [lookup_set] at ha hb
      split at ha
      · rename_i ha'
        split at hb
        · rename_i hb'
          rw [ha', hb']
        · cases ha
          have hlt := hsound.allocated b _ hb
          omega
      · split at hb
        · cases hb
          have hlt := hsound.allocated a _ ha
          omega
        · exact hs.distinct a b id ha hb
    · intro h' held'
      cases held'
      rfl
  | deny | grant | commitFail => exact ⟨hs.configs, nofun, hs.distinct, nofun⟩
  | release | snapshot | retune | updated =>
    exact { hs with }

end Placed

theorem view_admits {s : Controls} {e : Event} (h : t.log = e :: s.log) (ip : IpAddr) :
    (t.view ip).admits = (e.admittedAt ip).toList ++ (s.view ip).admits := by
  simp only [view, admits, h, List.filterMap_cons]
  cases e.admittedAt ip <;> rfl

theorem view_failures {s : Controls} {e : Event} (h : t.log = e :: s.log) (ip : IpAddr) :
    (t.view ip).failures = (e.failedAt ip).toList ++ (s.view ip).failures := by
  simp only [view, failures, h, List.filterMap_cons]
  cases e.failedAt ip <;> rfl

theorem view_pass {config : RateLimits} {s : Controls}
    (hwindows : (t.view ip).windows = (s.view ip).windows) (hlog : t.log = s.log)
    (htime : s.time ≤ t.time) : View.Move config (s.view ip) (t.view ip) := by
  refine .pass hwindows htime ?_ ?_
  · simp only [view, admits, hlog]
  · simp only [view, failures, hlog]

theorem view_windows {s : Controls} (h : s.clients.lookup ip = some id) :
    (s.view ip).windows = some ((s.states id).connections, (s.states id).authFailures) := by
  simp only [view, h, Option.map_some]

theorem windows_other {s : Controls} (hclients : t.clients.lookup ip = s.clients.lookup ip)
    (hstates : t.states = Function.update s.states id st) (hne : s.clients.lookup ip ≠ some id) :
    (t.view ip).windows = (s.view ip).windows := by
  cases hlookup : s.clients.lookup ip with
  | none => simp only [view, hclients, hlookup, Option.map_none]
  | some j =>
    have hj : j ≠ id := by
      rintro rfl
      exact hne hlookup
    simp only [view, hclients, hstates, hlookup, Option.map_some,
      Function.update_of_ne hj]

theorem windows_same {s : Controls} (ip : IpAddr) (hclients : t.clients = s.clients)
    (hstates : t.states = Function.update s.states id st)
    (hc : st.connections = (s.states id).connections)
    (ha : st.authFailures = (s.states id).authFailures) :
    (t.view ip).windows = (s.view ip).windows := by
  simp only [view, hclients, hstates, update_field ClientState.connections hc,
    update_field ClientState.authFailures ha]

theorem windows_own {s : Controls} (hlookup : t.clients.lookup ip = some id)
    (hstates : t.states = Function.update s.states id st) :
    (t.view ip).windows = some (st.connections, st.authFailures) := by
  rw [view_windows hlookup, hstates, Function.update_self]

theorem view_move {config : RateLimits} {s : Controls} (hs : Placed config s) (hsound : Sound s)
    (hm : Move s t) (ip : IpAddr) : View.Move config (s.view ip) (t.view ip) := by
  -- the end of an operation writes the state of its own client
  have hcommit : ∀ {h : Holder} {id : ℕ}, s.holder = some h → h.phase = .commit id →
      s.time = h.now ∧ s.time ≤ s.clock ∧ s.clients.lookup h.ip = some id ∧
        (ip ≠ h.ip → s.clients.lookup ip ≠ some id) := by
    intro h id held phase
    have hout := hsound.checkedOut h id held phase
    have htime := time_of_held held
    refine ⟨htime, htime ▸ hs.now_le h held, hout, ?_⟩
    intro hne hip
    exact hne (hs.distinct ip h.ip id hip hout)
  cases hm with
  | tick =>
    refine view_pass rfl rfl ?_
    cases hh : s.holder with
    | none => simp only [time, hh, Nat.le_add_right]
    | some h => simp only [time, hh, Nat.le_refl]
  | lock op ip' gen todo free =>
    refine view_pass rfl rfl ?_
    simp only [time, free, Nat.le_refl]
  | goTo h phase held =>
    exact view_pass rfl rfl (time_of_held held).le
  | expire h todo ip' id full held found expired =>
    have htime := time_of_held held
    by_cases hip : ip = ip'
    · subst hip
      simp only [ClientState.isExpired, hs.configs, Bool.and_eq_true] at expired
      rw [← htime] at expired
      refine .forget _ _ (view_windows found) expired.1.1.2 expired.1.2 ?_ htime.symm rfl rfl
      simp only [view, goTo, lookup_set_self, Option.map_none]
    · refine view_pass ?_ rfl htime.le
      simp only [view, goTo, lookup_set_of_ne hip]
  | evict h ip' victims held phase =>
    have hroomy := hs.roomy h held
    rw [phase] at hroomy
    cases hroomy
  | track h held absent =>
    have htime := time_of_held held
    by_cases hip : ip = h.ip
    · subst hip
      refine .track ?_ ?_ htime.symm rfl rfl
      · simp only [view, absent, Option.map_none]
      · refine (windows_own (s := s) (lookup_set_self _ _ _) rfl).trans ?_
        rw [show (s.view h.ip).time = h.now from htime]
        rfl
    · refine view_pass (windows_other (lookup_set_of_ne hip) rfl ?_) rfl htime.le
      intro hlookup
      have hlt := hsound.allocated ip _ hlookup
      omega
  | deny h id st held phase op denied =>
    obtain ⟨htime, hclock, hout, hother⟩ := hcommit held phase
    by_cases hip : ip = h.ip
    · subst hip
      have hc := denied.connections
      have ha := denied.authFailures
      rw [hs.configs, ← htime] at hc ha
      refine .deny _ _ _ (view_windows hout) hc ?_ hclock rfl rfl
      refine Eq.trans (windows_own (s := s) hout rfl) ?_
      rw [ha]
      rfl
    · exact view_pass (windows_other rfl rfl (hother hip)) rfl hclock
  | grant h id st held phase op granted =>
    obtain ⟨htime, hclock, hout, hother⟩ := hcommit held phase
    by_cases hip : ip = h.ip
    · subst hip
      have hunblocked := granted.unblocked
      have hwithin := granted.within
      have hc := granted.connections
      have ha := granted.authFailures
      rw [hs.configs, ← htime] at hunblocked hwithin hc ha
      refine .grant _ _ (view_windows hout) hunblocked hwithin ?_ hclock ?_
        (view_failures (s := s) (e := .admitted h.ip h.now) rfl _)
      · refine Eq.trans (windows_own (s := s) hout rfl) ?_
        rw [hc, ha]
        rfl
      · refine Eq.trans (view_admits (s := s) rfl _) ?_
        rw [Event.admittedAt, if_pos rfl, ← htime]
        rfl
    · refine .pass (windows_other rfl rfl (hother hip)) hclock ?_
        (view_failures (s := s) (e := .admitted h.ip h.now) rfl _)
      refine Eq.trans (view_admits (s := s) rfl _) ?_
      rw [Event.admittedAt, if_neg (Ne.symm hip)]
      rfl
  | commitFail h id held phase =>
    obtain ⟨htime, hclock, hout, hother⟩ := hcommit held phase
    by_cases hip : ip = h.ip
    · subst hip
      refine .fail _ _ (view_windows hout) ?_ hclock
        (view_admits (s := s) (e := .failed h.ip h.now) rfl _) ?_
      · refine Eq.trans (windows_own (s := s) hout rfl) ?_
        rw [hs.configs, ← htime]
        rfl
      · refine Eq.trans (view_failures (s := s) rfl _) ?_
        rw [Event.failedAt, if_pos rfl, ← htime]
        rfl
    · refine .pass (windows_other rfl rfl (hother hip)) hclock
        (view_admits (s := s) (e := .failed h.ip h.now) rfl _) ?_
      refine Eq.trans (view_failures (s := s) rfl _) ?_
      rw [Event.failedAt, if_neg (Ne.symm hip)]
      rfl
  | release | retune =>
    exact view_pass (windows_same ip rfl rfl rfl rfl) rfl (Nat.le_refl _)
  | snapshot | updated => exact view_pass rfl rfl (Nat.le_refl _)

end Alighieri.Abuse
