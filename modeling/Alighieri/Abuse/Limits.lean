import Alighieri.Abuse.View
import Alighieri.Lib.FixedWindow

/-!
# What the windows guarantee

Under one configuration and below the cap on tracked clients a window with counted events is not
given up before it has ended, so the windows of a client follow one another as if its state had
been kept.
-/

namespace Alighieri.Abuse
open Net FixedWindow List Controls

variable {now start : ℕ} {v v' : View} {c a w : Window} {ts : List ℕ} {t : Controls}

/-! ### No window starts in the future -/

theorem exceeded_started_le (limit : Option RateLimit) (h : w.started ≤ now) :
    (isLimitExceeded w limit now).2.started ≤ now := by
  cases limit with
  | none => exact h
  | some rate =>
    rcases reset_cases rate h with ⟨-, heq⟩ | ⟨-, heq⟩
    · simp only [isLimitExceeded, heq, h]
    · simp only [isLimitExceeded, heq, Nat.le_refl]

theorem increment_started_le (limit : Option RateLimit) (h : w.started ≤ now) :
    (incrementWindow w limit now).2.started ≤ now := by
  cases limit with
  | none => exact h
  | some rate =>
    rcases increment_cases rate h with ⟨-, heq⟩ | ⟨-, heq⟩
    · rw [heq]
      exact h
    · rw [heq]

theorem View.of_windows {P : Window → Window → Prop} (h : v.windows = some (c, a)) (hp : P c a) :
    ∀ c' a', v.windows = some (c', a') → P c' a' := by
  intro c' a' h'
  cases h.symm.trans h'
  exact hp

structure View.Timed (v : View) : Prop where
  connections : ∀ c a, v.windows = some (c, a) → c.started ≤ v.time
  authFailures : ∀ c a, v.windows = some (c, a) → a.started ≤ v.time

theorem View.Timed.move {config : RateLimits} (hv : v.Timed) (hm : View.Move config v v') :
    v'.Timed := by
  cases hm with
  | pass windows later =>
    refine ⟨?_, ?_⟩
    · intro c a h
      exact (hv.connections c a (windows ▸ h)).trans later
    · intro c a h
      exact (hv.authFailures c a (windows ▸ h)).trans later
  | forget c a found connections authFailures windows =>
    refine ⟨?_, ?_⟩ <;> intro c a h <;> rw [windows] at h <;> cases h
  | track absent windows time => exact ⟨of_windows windows time.ge, of_windows windows time.ge⟩
  | deny c c' a found connections windows later =>
    have hc := hv.connections c a found
    have ha := hv.authFailures c a found
    refine ⟨of_windows windows ?_, of_windows windows ((exceeded_started_le _ ha).trans later)⟩
    rcases connections with rfl | rfl
    · exact hc.trans later
    · exact (increment_started_le _ hc).trans later
  | grant c a found unblocked within windows later =>
    have hc := hv.connections c a found
    have ha := hv.authFailures c a found
    exact ⟨of_windows windows ((increment_started_le _ hc).trans later),
      of_windows windows ((exceeded_started_le _ ha).trans later)⟩
  | fail c a found windows later =>
    have hc := hv.connections c a found
    have ha := hv.authFailures c a found
    exact ⟨of_windows windows (hc.trans later),
      of_windows windows ((increment_started_le _ ha).trans later)⟩

/-! ### Connections: at most two windows in an interval -/

section Paced

variable {rate : RateLimit} {groups : List Group}

def Running (groups : List Group) (c : Window) : Prop :=
  ∃ ts earlier, groups = (c.started, ts) :: earlier ∧ 0 < ts.length ∧ ts.length ≤ c.count

def Over (rate : RateLimit) (groups : List Group) (time : ℕ) : Prop :=
  ∀ g ∈ groups.head?, g.1 + rate.window ≤ time

theorem Over.mono {time time' : ℕ} (h : Over rate groups time) (hle : time ≤ time') :
    Over rate groups time' :=
  fun g hg => (h g hg).trans hle

theorem over_of_expired (h : Running groups c ∨ Over rate groups c.started)
    (hend : c.started + rate.window ≤ now) : Over rate groups now := by
  rcases h with ⟨ts, earlier, rfl, -, -⟩ | h
  · intro g hg
    cases hg
    exact hend
  · exact h.mono (by omega)

theorem increment_keeps (hs : Spaced rate.window rate.limit groups)
    (h : Running groups c ∨ Over rate groups c.started) (hstart : c.started ≤ now) :
    Running groups (incrementWindow c (some rate) now).2 ∨
      Over rate groups (incrementWindow c (some rate) now).2.started := by
  rcases increment_cases rate hstart with ⟨-, heq⟩ | ⟨hend, heq⟩
  · rw [heq]
    rcases h with ⟨ts, earlier, rfl, hpos, hle⟩ | h
    · have hbound := hs.bounded _ mem_cons_self
      have hmax := rate.limit_le
      refine .inl ⟨ts, earlier, rfl, hpos, ?_⟩
      show ts.length ≤ min (c.count + 1) maxU64
      dsimp only at hbound
      omega
    · exact .inr h
  · rw [heq]
    exact .inr (over_of_expired h hend)

theorem grant_joins (hs : Spaced rate.window rate.limit groups) (hmax : rate.limit < maxU64)
    (h : Running groups c ∨ Over rate groups c.started) (hstart : c.started ≤ now)
    (hwithin : (incrementWindow c (some rate) now).1 = false) :
    ∃ groups', Spaced rate.window rate.limit groups' ∧ times groups' = now :: times groups ∧
      Running groups' (incrementWindow c (some rate) now).2 := by
  have hcount := increment_within rate hwithin
  have hpos := rate.limit_pos
  have hwidth := rate.window_pos
  rcases increment_cases rate hstart with ⟨hlt, heq⟩ | ⟨hend, heq⟩
  · rw [heq] at hcount ⊢
    have hexact : min (c.count + 1) maxU64 = c.count + 1 := by
      dsimp only at hcount
      omega
    rw [hexact] at hcount ⊢
    dsimp only at hcount
    rcases h with ⟨ts, earlier, rfl, -, hle⟩ | h
    · refine ⟨(c.started, now :: ts) :: earlier, hs.extend ⟨hstart, hlt⟩ (by omega), rfl,
        now :: ts, earlier, rfl, Nat.succ_pos _, ?_⟩
      exact Nat.succ_le_succ hle
    · refine ⟨(c.started, [now]) :: groups, hs.cons ?_ hpos h, rfl, [now], groups, rfl,
        Nat.one_pos, Nat.le_add_left 1 _⟩
      intro t ht
      rw [mem_singleton.mp ht]
      exact ⟨hstart, hlt⟩
  · rw [heq]
    refine ⟨(now, [now]) :: groups, hs.cons ?_ hpos (over_of_expired h hend), rfl, [now], groups,
      rfl, Nat.one_pos, Nat.le_refl 1⟩
    intro t ht
    rw [mem_singleton.mp ht]
    dsimp only
    omega

/-- The admissions of a client fall into windows that follow one another; a tracked state knows
the newest. -/
def View.Paced (rate : RateLimit) (v : View) : Prop :=
  ∃ groups, Spaced rate.window rate.limit groups ∧ times groups = v.admits ∧
    (v.windows = none → Over rate groups v.time) ∧
    ∀ c a, v.windows = some (c, a) → Running groups c ∨ Over rate groups c.started

theorem View.Paced.move {config : RateLimits} (hrate : config.connectionRate = some rate)
    (hmax : rate.limit < maxU64) (hv : v.Paced rate) (ht : v.Timed) (hm : View.Move config v v') :
    v'.Paced rate := by
  obtain ⟨groups, hs, htimes, hnone, hsome⟩ := hv
  cases hm with
  | pass windows later admits =>
    refine ⟨groups, hs, htimes.trans admits.symm, ?_, ?_⟩
    · intro h
      exact (hnone (windows ▸ h)).mono later
    · intro c a h
      exact hsome c a (windows ▸ h)
  | forget c a found connections authFailures windows time admits =>
    refine ⟨groups, hs, htimes.trans admits.symm, ?_, ?_⟩
    · intro _
      rw [time]
      rw [hrate] at connections
      rcases prunable_cases rate (ht.connections c a found) connections with hzero | hend
      · rcases hsome c a found with ⟨ts, earlier, -, hpos, hle⟩ | hover
        · omega
        · exact hover.mono (ht.connections c a found)
      · exact over_of_expired (hsome c a found) hend
    · intro c' a' h
      rw [windows] at h
      cases h
  | track absent windows time admits =>
    exact ⟨groups, hs, htimes.trans admits.symm, fun h => (nomatch windows.symm.trans h),
      of_windows windows (.inr (hnone absent))⟩
  | deny c c' a found connections windows later admits =>
    refine ⟨groups, hs, htimes.trans admits.symm, fun h => (nomatch windows.symm.trans h),
      of_windows windows ?_⟩
    rw [hrate] at connections
    rcases connections with rfl | rfl
    · exact hsome _ a found
    · exact increment_keeps hs (hsome c a found) (ht.connections c a found)
  | grant c a found unblocked within windows later admits =>
    rw [hrate] at within windows
    obtain ⟨groups', hs', htimes', hrunning⟩ :=
      grant_joins hs hmax (hsome c a found) (ht.connections c a found) within
    exact ⟨groups', hs', by rw [htimes', htimes, admits], fun h => (nomatch windows.symm.trans h),
      of_windows windows (.inl hrunning)⟩
  | fail c a found windows later admits =>
    exact ⟨groups, hs, htimes.trans admits.symm, fun h => (nomatch windows.symm.trans h),
      of_windows windows (hsome _ a found)⟩

end Paced

/-! ### Failures: a full window blocks until it ends -/

section Failures

variable {rate : RateLimit} {config : RateLimits}

def since (start : ℕ) (ts : List ℕ) : ℕ := ts.countP fun t => decide (start ≤ t)

theorem since_eq_zero (h : ∀ t ∈ ts, t < start) : since start ts = 0 := by
  refine countP_eq_zero.mpr ?_
  intro t ht hle
  have hlt := h t ht
  simp only [decide_eq_true_eq] at hle
  omega

theorem since_cons {t : ℕ} (ts : List ℕ) (h : start ≤ t) :
    since start (t :: ts) = since start ts + 1 := by
  rw [since, countP_cons, if_pos (decide_eq_true h)]
  rfl

structure View.Counted (rate : RateLimit) (v : View) : Prop where
  absent : v.windows = none → ∀ t ∈ v.failures, t < v.time
  count : ∀ c a, v.windows = some (c, a) → a.count = min (since a.started v.failures) maxU64
  inside : ∀ c a, v.windows = some (c, a) → ∀ t ∈ v.failures, t < a.started + rate.window

theorem exceeded_counts (hstart : a.started ≤ now)
    (hcount : a.count = min (since a.started ts) maxU64)
    (hinside : ∀ t ∈ ts, t < a.started + rate.window) :
    (isLimitExceeded a (some rate) now).2.count =
        min (since (isLimitExceeded a (some rate) now).2.started ts) maxU64 ∧
      ∀ t ∈ ts, t < (isLimitExceeded a (some rate) now).2.started + rate.window := by
  rcases reset_cases rate hstart with ⟨-, heq⟩ | ⟨hend, heq⟩
  · simp only [isLimitExceeded, heq]
    exact ⟨hcount, hinside⟩
  · have hpast : ∀ t ∈ ts, t < now := fun t ht => (hinside t ht).trans_le hend
    simp only [isLimitExceeded, heq, since_eq_zero hpast, Nat.zero_min, true_and]
    intro t ht
    have hlt := hpast t ht
    omega

theorem increment_counts (hstart : a.started ≤ now)
    (hcount : a.count = min (since a.started ts) maxU64)
    (hinside : ∀ t ∈ ts, t < a.started + rate.window) :
    (incrementWindow a (some rate) now).2.count =
        min (since (incrementWindow a (some rate) now).2.started (now :: ts)) maxU64 ∧
      ∀ t ∈ now :: ts, t < (incrementWindow a (some rate) now).2.started + rate.window := by
  have hwidth := rate.window_pos
  rcases increment_cases rate hstart with ⟨hlt, heq⟩ | ⟨hend, heq⟩
  · rw [heq]
    refine ⟨?_, ?_⟩
    · show min (a.count + 1) maxU64 = min (since a.started (now :: ts)) maxU64
      rw [since_cons ts hstart]
      omega
    · intro t ht
      rcases mem_cons.mp ht with rfl | ht
      · exact hlt
      · exact hinside t ht
  · have hpast : ∀ t ∈ ts, t < now := fun t ht => (hinside t ht).trans_le hend
    rw [heq]
    refine ⟨?_, ?_⟩
    · show 1 = min (since now (now :: ts)) maxU64
      rw [since_cons ts (Nat.le_refl now), since_eq_zero hpast]
      exact (Nat.min_eq_left one_le_maxU64).symm
    · intro t ht
      show t < now + rate.window
      rcases mem_cons.mp ht with rfl | ht
      · omega
      · have hlt := hpast t ht
        omega

theorem View.Counted.move (hrate : config.authFailureRate = some rate) (hv : v.Counted rate)
    (ht : v.Timed) (hm : View.Move config v v') : v'.Counted rate := by
  -- an access to a window the client has
  have hstep : ∀ {c' a' : Window}, v'.windows = some (c', a') →
      (a'.count = min (since a'.started v'.failures) maxU64 ∧
        ∀ t ∈ v'.failures, t < a'.started + rate.window) → v'.Counted rate := by
    intro c' a' hw hboth
    exact ⟨fun h => (nomatch hw.symm.trans h), of_windows hw hboth.1, of_windows hw hboth.2⟩
  cases hm with
  | pass windows later admits failures =>
    refine ⟨?_, ?_, ?_⟩
    · intro h t ht
      rw [failures] at ht
      exact (hv.absent (windows ▸ h) t ht).trans_le later
    · intro c a h
      rw [failures]
      exact hv.count c a (windows ▸ h)
    · intro c a h
      rw [failures]
      exact hv.inside c a (windows ▸ h)
  | forget c a found connections authFailures windows time admits failures =>
    have hstart := ht.authFailures c a found
    rw [hrate] at authFailures
    refine ⟨?_, ?_, ?_⟩
    · intro _ t hmem
      rw [failures] at hmem
      rw [time]
      rcases prunable_cases rate hstart authFailures with hzero | hend
      · have hnone : since a.started v.failures = 0 := by
          have hcount := hv.count c a found
          have hmax := one_le_maxU64
          omega
        have hlt := countP_eq_zero.mp hnone t hmem
        simp only [decide_eq_true_eq] at hlt
        omega
      · exact (hv.inside c a found t hmem).trans_le hend
    · intro c' a' h
      rw [windows] at h
      cases h
    · intro c' a' h
      rw [windows] at h
      cases h
  | track absent windows time admits failures =>
    refine hstep windows ?_
    have hpast : ∀ t ∈ v.failures, t < v.time := hv.absent absent
    rw [failures]
    refine ⟨?_, ?_⟩
    · show 0 = min (since v.time v.failures) maxU64
      rw [since_eq_zero hpast, Nat.zero_min]
    · intro t hmem
      exact (hpast t hmem).trans_le (Nat.le_add_right _ _)
  | deny c c' a found connections windows later admits failures
  | grant c a found unblocked within windows later admits failures =>
    rw [hrate] at windows
    refine hstep windows ?_
    rw [failures]
    exact exceeded_counts (ht.authFailures c a found) (hv.count c a found) (hv.inside c a found)
  | fail c a found windows later admits failures =>
    rw [hrate] at windows
    refine hstep windows ?_
    rw [failures]
    exact increment_counts (ht.authFailures c a found) (hv.count c a found) (hv.inside c a found)

def View.Blocked (rate : RateLimit) (start : ℕ) (v : View) : Prop :=
  (∃ c a, v.windows = some (c, a) ∧ a.started = start ∧ rate.limit ≤ a.count) ∨
    start + rate.window ≤ v.time

theorem View.Move.time_le (hm : View.Move config v v') : v.time ≤ v'.time := by
  cases hm with
  | pass windows later | deny c c' a found connections windows later
  | grant c a found unblocked within windows later | fail c a found windows later => exact later
  | forget c a found connections authFailures windows time | track absent windows time =>
    exact time.ge

theorem View.Move.admits_cases (hm : View.Move config v v') :
    v'.admits = v.admits ∨ v'.admits = v.time :: v.admits := by
  cases hm with
  | pass windows later admits | forget c a found connections authFailures windows time admits
  | track absent windows time admits | deny c c' a found connections windows later admits
  | fail c a found windows later admits => exact .inl admits
  | grant c a found unblocked within windows later admits => exact .inr admits

theorem View.Blocked.move (hrate : config.authFailureRate = some rate) (hv : v.Blocked rate start)
    (ht : v.Timed) (hm : View.Move config v v') :
    v'.Blocked rate start ∧
      (v'.admits = v.admits ∨ start + rate.window ≤ v.time ∧ v'.admits = v.time :: v.admits) := by
  have hlater := hm.time_le
  by_cases hend : start + rate.window ≤ v.time
  · refine ⟨.inr (hend.trans hlater), ?_⟩
    rcases hm.admits_cases with hsame | hnew
    · exact .inl hsame
    · exact .inr ⟨hend, hnew⟩
  · obtain ⟨c, a, hfound, hstarted, hfull⟩ := hv.resolve_right hend
    have hstart := ht.authFailures c a hfound
    -- the window is still running, so no access resets it
    have hrunning : resetIfExpired a rate v.time = a := by
      rcases reset_cases rate hstart with ⟨-, heq⟩ | ⟨hle, -⟩
      · exact heq
      · omega
    cases hm with
    | pass windows later admits =>
      exact ⟨.inl ⟨c, a, windows.trans hfound, hstarted, hfull⟩, .inl admits⟩
    | forget c' a' found connections authFailures =>
      have heq := hfound.symm.trans found
      cases heq
      rw [hrate] at authFailures
      have hpos := rate.limit_pos
      rcases prunable_cases rate hstart authFailures with hzero | hle
      · omega
      · omega
    | track absent =>
      rw [hfound] at absent
      cases absent
    | deny c' c'' a' found connections windows later admits =>
      have heq := hfound.symm.trans found
      cases heq
      rw [hrate] at windows
      simp only [isLimitExceeded, hrunning] at windows
      exact ⟨.inl ⟨_, a, windows, hstarted, hfull⟩, .inl admits⟩
    | grant c' a' found unblocked =>
      have heq := hfound.symm.trans found
      cases heq
      rw [hrate] at unblocked
      simp only [isLimitExceeded, hrunning, decide_eq_false_iff_not] at unblocked
      exact absurd hfull unblocked
    | fail c' a' found windows later admits =>
      have heq := hfound.symm.trans found
      cases heq
      rw [hrate] at windows
      simp only [incrementWindow, hrunning] at windows
      have hmax := rate.limit_le
      refine ⟨.inl ⟨_, _, windows, hstarted, ?_⟩, .inl admits⟩
      show rate.limit ≤ min (a.count + 1) maxU64
      omega

end Failures

/-! ### Every run -/

/- A step without a reload, with fewer clients tracked than the cap. -/
def Steady (s : Controls) (a : Act) : Prop :=
  (∀ config, a ≠ .write config) ∧ Table.size s.clients < maxTrackedClients

instance (s : Controls) (a : Act) : Decidable (Steady s a) :=
  match a with
  | .write config => .isFalse fun h => h.1 config rfl
  | .tick _ | .admitClient _ | .recordAuthFailure _ _ | .prune _ _ _ | .settle | .scan _ _
  | .evict | .enter | .commit | .release _ | .snapshot | .retune _ | .updated =>
    decidable_of_iff (Table.size s.clients < maxTrackedClients)
      ⟨fun h => ⟨nofun, h⟩, fun h => h.2⟩

abbrev SteadyRun (s t : Controls) : Prop := Lts.ReachableBy step Steady s t

theorem steady_placed {config : RateLimits} {s : Controls} (h : SteadyRun (.new config) s) :
    Sound s ∧ Placed config s := by
  refine Lts.ReachableBy.invariant (P := fun s => Sound s ∧ Placed config s)
    ⟨.init config, .init config⟩ ?_ h
  rintro s a t ⟨hsound, hplaced⟩ ⟨hwrite, hcap⟩ hstep
  have hm := step_move hstep hwrite
  exact ⟨hsound.move hm, hplaced.move hsound hcap hm⟩

theorem steady_view {config : RateLimits} {s : Controls} (ip : IpAddr) {P : View → Prop}
    (hs : Sound s ∧ Placed config s) (h0 : P (s.view ip))
    (hmove : ∀ v v', P v → View.Move config v v' → P v') (h : SteadyRun s t) : P (t.view ip) := by
  have hall : Sound t ∧ Placed config t ∧ P (t.view ip) := by
    refine Lts.ReachableBy.invariant (P := fun t => Sound t ∧ Placed config t ∧ P (t.view ip))
      ⟨hs.1, hs.2, h0⟩ ?_ h
    rintro s a t ⟨hsound, hplaced, hP⟩ ⟨hwrite, hcap⟩ hstep
    have hm := step_move hstep hwrite
    exact ⟨hsound.move hm, hplaced.move hsound hcap hm,
      hmove _ _ hP (view_move hplaced hsound hm ip)⟩
  exact hall.2.2

section Runs

variable {config : RateLimits} {s : Controls} {rate : RateLimit} (ip : IpAddr)

theorem steady_timed (h : SteadyRun (.new config) s) : (s.view ip).Timed :=
  steady_view ip ⟨.init config, .init config⟩ ⟨nofun, nofun⟩ (fun _ _ hv hm => hv.move hm) h

theorem steady_paced (h : SteadyRun (.new config) s) (hrate : config.connectionRate = some rate)
    (hmax : rate.limit < maxU64) : (s.view ip).Paced rate := by
  have h0 : ((new config).view ip).Timed ∧ ((new config).view ip).Paced rate :=
    ⟨⟨nofun, nofun⟩, [], Spaced.nil, rfl, nofun, nofun⟩
  have hboth := steady_view ip (P := fun v => v.Timed ∧ v.Paced rate) ⟨.init config, .init config⟩ h0
    (fun _ _ hv hm => ⟨hv.1.move hm, hv.2.move hrate hmax hv.1 hm⟩) h
  exact hboth.2

theorem steady_counted (h : SteadyRun (.new config) s)
    (hrate : config.authFailureRate = some rate) : (s.view ip).Counted rate := by
  have h0 : ((new config).view ip).Timed ∧ ((new config).view ip).Counted rate :=
    ⟨⟨nofun, nofun⟩, nofun, nofun, nofun⟩
  have hboth := steady_view ip (P := fun v => v.Timed ∧ v.Counted rate)
    ⟨.init config, .init config⟩ h0
    (fun _ _ hv hm => ⟨hv.1.move hm, hv.2.move hrate hv.1 hm⟩) h
  exact hboth.2

theorem steady_blocked (h : SteadyRun (.new config) s)
    (hrate : config.authFailureRate = some rate) (hfull : (s.view ip).Blocked rate start)
    (ht : SteadyRun s t) :
    ∃ new, t.admits ip = new ++ s.admits ip ∧ ∀ now ∈ new, start + rate.window ≤ now := by
  have hall := steady_view ip (P := fun v => v.Timed ∧ v.Blocked rate start ∧
      ∃ new, v.admits = new ++ s.admits ip ∧ ∀ now ∈ new, start + rate.window ≤ now)
    (steady_placed h) ⟨steady_timed ip h, hfull, [], rfl, nofun⟩ ?_ ht
  · exact hall.2.2
  · rintro v v' ⟨htimed, hblocked, new, hadmits, hnew⟩ hm
    obtain ⟨hblocked', hcases⟩ := hblocked.move hrate htimed hm
    refine ⟨htimed.move hm, hblocked', ?_⟩
    rcases hcases with hsame | ⟨hend, hmore⟩
    · exact ⟨new, hsame.trans hadmits, hnew⟩
    · refine ⟨v.time :: new, by rw [hmore, hadmits, cons_append], ?_⟩
      intro now hnow
      rcases mem_cons.mp hnow with rfl | hnow
      · exact hend
      · exact hnew now hnow

end Runs

/-- Under one configuration and below the cap: no interval of one connection window has more than
twice the limit of admissions, and after the limit of failures there is none until their window
has ended. -/
theorem windows_limit_clients (config : RateLimits) (s : Controls)
    (h : SteadyRun (.new config) s) (ip : IpAddr) :
    (∀ rate, config.connectionRate = some rate → rate.limit < maxU64 →
      ∀ a b, b ≤ a + rate.window → between a b (s.admits ip) ≤ 2 * rate.limit) ∧
    (∀ rate id, config.authFailureRate = some rate → s.clients.lookup ip = some id →
      rate.limit ≤ since (s.states id).authFailures.started (s.failures ip) →
      ∀ t, SteadyRun s t → ∃ new, t.admits ip = new ++ s.admits ip ∧
        ∀ now ∈ new, (s.states id).authFailures.started + rate.window ≤ now) := by
  refine ⟨?_, ?_⟩
  · intro rate hrate hmax a b hab
    obtain ⟨groups, hs, htimes, -⟩ := steady_paced ip h hrate hmax
    have hle := between_le hs hab
    rwa [htimes] at hle
  · intro rate id hrate hfound hreached t ht
    have hwindows := view_windows hfound
    have hcount := (steady_counted ip h hrate).count _ _ hwindows
    have hmax := rate.limit_le
    refine steady_blocked ip h hrate (Or.inl ⟨_, _, hwindows, rfl, ?_⟩) ht
    rw [hcount]
    exact Nat.le_min.mpr ⟨hreached, hmax⟩

def tightLimits : RateLimits :=
  ⟨some ⟨1, 10, Nat.one_pos, one_le_maxU64, Nat.succ_pos 9⟩,
    some ⟨1, 10, Nat.one_pos, one_le_maxU64, Nat.succ_pos 9⟩, none, none⟩

def tightRun : List Act :=
  [.admitClient (.v4 0x7f000001), .settle, .enter, .commit,
    .recordAuthFailure (.v4 0x7f000001) 0, .settle, .enter, .commit]

theorem windows_limit_clients_tight :
    ∃ s, Lts.execBy step Steady (.new tightLimits) tightRun = some s ∧
      between 0 10 (s.admits (.v4 0x7f000001)) ≤ 2 ∧
      ∀ t, SteadyRun s t →
        ∃ new, t.admits (.v4 0x7f000001) = new ++ [0] ∧ ∀ now ∈ new, 10 ≤ now := by
  obtain ⟨s, hrun⟩ : ∃ s, Lts.execBy step Steady (.new tightLimits) tightRun = some s :=
    ⟨_, rfl⟩
  have hlog : (Lts.execBy step Steady (.new tightLimits) tightRun).map log =
      some [.failed (.v4 0x7f000001) 0, .admitted (.v4 0x7f000001) 0] := rfl
  have hstate : (Lts.execBy step Steady (.new tightLimits) tightRun).map (fun s =>
      (s.clients.lookup (.v4 0x7f000001), (s.states 0).authFailures.started)) =
      some (some 0, 0) := rfl
  rw [hrun] at hlog hstate
  simp only [Option.map_some, Option.some.injEq, Prod.mk.injEq] at hlog hstate
  have hadmits : s.admits (.v4 0x7f000001) = [0] := by
    rw [admits, hlog]
    rfl
  obtain ⟨hpaced, hblocked⟩ := windows_limit_clients tightLimits s
    (Lts.reachableBy_execBy tightRun .start hrun) (.v4 0x7f000001)
  refine ⟨s, hrun, hpaced _ rfl (by decide) 0 10 (by decide), ?_⟩
  intro t ht
  have hreached : 1 ≤ since (s.states 0).authFailures.started (s.failures (.v4 0x7f000001)) := by
    rw [failures, hlog, hstate.2]
    decide
  obtain ⟨new, hnew, hend⟩ := hblocked _ 0 rfl hstate.1 hreached t ht
  rw [hadmits] at hnew
  rw [hstate.2] at hend
  exact ⟨new, hnew, hend⟩

/-! ### The largest limit

The counter stops at `u64::MAX` and is never above that limit. -/

def loosestLimits : RateLimits :=
  ⟨some ⟨maxU64, 1, one_le_maxU64, Nat.le.refl, Nat.one_pos⟩, none, none, none⟩

/- Between two connections of 127.0.0.1, all of them made at one reading of the clock. -/
structure Paused (n : ℕ) (s : Controls) : Prop where
  run : SteadyRun (.new loosestLimits) s
  free : s.holder = none
  found : s.clients.lookup (.v4 0x7f000001) = some 0
  keys : s.clients.keys = [.v4 0x7f000001]
  started : (s.states 0).connections.started = 0
  permits : s.permits = []
  gen : s.gen = 0
  clock : s.clock = 0
  admits : s.admits (.v4 0x7f000001) = List.replicate n 0

def pausedRun : List Act := [.admitClient (.v4 0x7f000001), .settle, .enter, .commit, .release 0]

theorem paused_one : ∃ s, Paused 1 s := by
  obtain ⟨s, hrun⟩ : ∃ s, Lts.execBy step Steady (.new loosestLimits) pausedRun = some s :=
    ⟨_, rfl⟩
  have hfields : (Lts.execBy step Steady (.new loosestLimits) pausedRun).map (fun s =>
      (s.holder, s.clients.lookup (.v4 0x7f000001), s.clients.keys,
        (s.states 0).connections.started, s.permits, s.gen, s.clock,
        s.admits (.v4 0x7f000001))) =
      some (none, some 0, [.v4 0x7f000001], 0, [], 0, 0, [0]) := rfl
  rw [hrun] at hfields
  simp only [Option.map_some, Option.some.injEq, Prod.mk.injEq] at hfields
  obtain ⟨free, found, keys, started, permits, gen, clock, admits⟩ := hfields
  exact ⟨s, Lts.reachableBy_execBy pausedRun .start hrun, free, found, keys, started, permits, gen,
    clock, admits⟩

theorem admitClient_loosest {st : ClientState} (h : st.connections.started = 0) (fresh : ℕ) :
    (st.admitClient loosestLimits 0 0 fresh).1 = .ok () ∧
      (st.admitClient loosestLimits 0 0 fresh).2.connections.started = 0 := by
  have hwindow : resetIfExpired st.connections ⟨maxU64, 1, by decide, by decide, by decide⟩ 0 =
      st.connections := by
    unfold resetIfExpired
    rw [h]
    rfl
  have hover : ¬maxU64 < min (st.connections.count + 1) maxU64 :=
    Nat.not_lt.mpr (Nat.min_le_right _ _)
  simp only [ClientState.admitClient, loosestLimits, isLimitExceeded, incrementWindow, hwindow,
    hover, ClientState.reconcileBandwidth, h, decide_false, Option.any_none, Bool.false_eq_true,
    if_false, and_self]

theorem Paused.again {n : ℕ} {s : Controls} (h : Paused n s) : ∃ t, Paused (n + 1) t := by
  have hconfig : s.configs 0 = loosestLimits := (steady_placed h.run).2.configs 0
  have hcap : Table.size s.clients < maxTrackedClients := by
    rw [Table.size, h.keys]
    decide
  -- the mutex is taken, and the prune, if it is due, finds the client's state locked
  obtain ⟨u, hrun, hclients, hstates, hpermits, hgen, hclock, hlog, hheld⟩ : ∃ u : Controls,
      SteadyRun (.new loosestLimits) u ∧ u.clients = s.clients ∧ u.states = s.states ∧
        u.permits = s.permits ∧ u.gen = s.gen ∧ u.clock = s.clock ∧ u.log = s.log ∧
        u.holder = some ⟨.admitClient, .v4 0x7f000001, 0, 0, .prune []⟩ := by
    have hlock : s.step (.admitClient (.v4 0x7f000001)) =
        some (s.lockClients .admitClient (.v4 0x7f000001) 0) := by
      simp only [step, h.free, h.gen, if_true]
    have hlocked := h.run.next (a := .admitClient (.v4 0x7f000001)) ⟨fun _ h => (by cases h), hcap⟩ hlock
    by_cases hdue : s.admissions % pruneEveryNAdmissions = 0
    · refine ⟨(s.lockClients .admitClient (.v4 0x7f000001) 0).visit
        ⟨.admitClient, .v4 0x7f000001, 0, 0, .prune [.v4 0x7f000001]⟩ [.v4 0x7f000001]
        (.v4 0x7f000001) true false, hlocked.next (a := .prune (.v4 0x7f000001) true false)
          ⟨fun _ h => (by cases h), hcap⟩ ?_, ?_⟩
      · simp [step, lockClients, hdue, h.keys, h.clock]
      · simp only [visit, goTo, lockClients, h.found]
        exact ⟨rfl, rfl, rfl, rfl, rfl, rfl, rfl⟩
    · refine ⟨_, hlocked, rfl, rfl, rfl, rfl, rfl, rfl, ?_⟩
      simp only [lockClients, hdue, if_false, h.clock]
  have hucap : Table.size u.clients < maxTrackedClients := by rwa [hclients]
  have huconfig : u.configs 0 = loosestLimits := (steady_placed hrun).2.configs 0
  have hufound : u.clients.lookup (.v4 0x7f000001) = some 0 := by rw [hclients, h.found]
  have hustarted : (u.states 0).connections.started = 0 := by rw [hstates, h.started]
  obtain ⟨hok, hstarted⟩ := admitClient_loosest hustarted u.nextBucket
  have hsettle : u.step .settle =
      some (u.goTo ⟨.admitClient, .v4 0x7f000001, 0, 0, .prune []⟩ .enter) := by
    simp only [step, hheld, settle, hufound, reduceCtorEq, and_false, if_false,
      if_true]
  have hentered := hrun.next (a := .settle) ⟨fun _ h => (by cases h), hucap⟩ hsettle
  have hcommit : (u.goTo ⟨.admitClient, .v4 0x7f000001, 0, 0, .prune []⟩ .enter).step .enter =
      some (u.goTo ⟨.admitClient, .v4 0x7f000001, 0, 0, .prune []⟩ (.commit 0)) := by
    simp only [step, goTo, enter, hufound, if_true]
  have hcommitting := hentered.next (a := .enter) ⟨fun _ h => (by cases h), hucap⟩ hcommit
  obtain ⟨v, hstep, hvclients, hvstates, p, hvpermits, hvgen, hvclock, hvlog, hvfree⟩ :
      ∃ v, (u.goTo ⟨.admitClient, .v4 0x7f000001, 0, 0, .prune []⟩ (.commit 0)).step .commit =
        some v ∧ v.clients = u.clients ∧
        (v.states 0).connections.started = 0 ∧ ∃ p, v.permits = [p] ∧ v.gen = u.gen ∧
        v.clock = u.clock ∧ v.log = .admitted (.v4 0x7f000001) 0 :: u.log ∧ v.holder = none := by
    refine ⟨_, rfl, ?_⟩
    simp only [commitAdmit, goTo, huconfig, hok, hpermits, h.permits,
      Function.update_self, hstarted, true_and, and_true]
    exact ⟨_, rfl⟩
  have hadmitted := hcommitting.next (a := .commit) ⟨fun _ h => (by cases h), hucap⟩ hstep
  have hvcap : Table.size v.clients < maxTrackedClients := by rwa [hvclients]
  have hrelease : v.step (.release 0) = some (v.dropPermit 0 p) := by
    simp only [step, hvpermits, List.getElem?_cons_zero, Option.map_some]
  refine ⟨v.dropPermit 0 p, hadmitted.next (a := .release 0) ⟨fun _ h => (by cases h), hvcap⟩ hrelease, hvfree,
    ?_, ?_, ?_, ?_, ?_, ?_, ?_⟩
  · show v.clients.lookup _ = _
    rw [hvclients, hufound]
  · show v.clients.keys = _
    rw [hvclients, hclients, h.keys]
  · show (Function.update v.states p.state (v.states p.state).release 0).connections.started = 0
    by_cases hp : 0 = p.state
    · rw [← hp, Function.update_self]
      exact hvstates
    · rw [Function.update_of_ne hp]
      exact hvstates
  · show v.permits.eraseIdx 0 = []
    rw [hvpermits]
    rfl
  · show v.gen = 0
    rw [hvgen, hgen, h.gen]
  · show v.clock = 0
    rw [hvclock, hclock, h.clock]
  · show v.log.filterMap _ = _
    have hadmits : u.log.filterMap (Event.admittedAt (.v4 0x7f000001)) = List.replicate n 0 := by
      rw [hlog]
      exact h.admits
    rw [hvlog, filterMap_cons, hadmits]
    rfl

theorem paused_many (n : ℕ) : ∃ s, Paused (n + 1) s := by
  induction n with
  | zero => exact paused_one
  | succ n ih =>
    obtain ⟨s, hs⟩ := ih
    exact hs.again

/-- With the largest limit there are runs that admit one client more than twice the
limit at one reading of the clock. -/
theorem largest_limit_admits_all :
    ∃ s rate, SteadyRun (.new loosestLimits) s ∧ loosestLimits.connectionRate = some rate ∧
      2 * rate.limit < between 0 0 (s.admits (.v4 0x7f000001)) := by
  obtain ⟨s, hs⟩ := paused_many (2 * maxU64)
  refine ⟨s, _, hs.run, rfl, ?_⟩
  rw [hs.admits, between, List.countP_replicate]
  exact Nat.lt_succ_self _

end Alighieri.Abuse
