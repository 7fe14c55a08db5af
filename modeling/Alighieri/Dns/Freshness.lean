import Alighieri.Dns.Resolver

/-!
# What the caches answer

Every entry of the caches was stored, or timed out, at the time it carries and for its key; the
log says so.
-/

namespace Alighieri.Dns
open Net List

variable {log log' : List Event} {pc : Pc} {inflight : Table DnsCacheKey ℕ}
  {channel : ℕ → Singleflight.Channel Lookup} {now : ℕ} {t : DnsResolver}

def SameHost (host host' : Text) : Prop := host.map Char.toLower = host'.map Char.toLower

theorem sameHost_of_key {host host' : Text} {port port' : ℕ}
    (h : DnsCacheKey.new host' port' = .new host port) : SameHost host' host ∧ port' = port := by
  simp only [DnsCacheKey.new, DnsCacheKey.mk.injEq] at h
  exact h

def Event.Justified (before : List Event) : Event → Prop
  | .stored .. | .timedOut .. => True
  | .cacheHit host port ttl called now addrs => called ≤ now ∧
      ∃ host' time, .stored host' port addrs time ∈ before ∧ SameHost host' host ∧ now < time + ttl
  | .negativeHit host port called now => called ≤ now ∧
      ∃ host' time, .timedOut host' port time ∈ before ∧ SameHost host' host ∧
        now < time + negativeCacheTtl

def Justified (log : List Event) : Prop :=
  ∀ before e after, log = before ++ e :: after → e.Justified before

theorem Justified.append (h : Justified log) {e : Event} (he : e.Justified log) :
    Justified (log ++ [e]) := by
  intro before e' after heq
  rcases eq_nil_or_concat after with rfl | ⟨rest, last, rfl⟩
  · obtain ⟨rfl, hlast⟩ := append_inj' heq rfl
    cases hlast
    exact he
  · have hsplit : log ++ [e] = (before ++ e' :: rest) ++ [last] := by
      rw [heq]
      simp
    obtain ⟨rfl, -⟩ := append_inj' hsplit rfl
    exact h before e' rest rfl

/- What a call's place in the code says about the log. -/
def Task.Noted (log : List Event) (task : Task) : Prop :=
  match task.pc with
  | .cacheCheck ttl now => task.ttl = some ttl ∧ task.called ≤ now
  | .negativeCheck now => task.called ≤ now
  | .finished (.cache ttl now) result => task.ttl = some ttl ∧
      ∃ addrs, result = .ok addrs ∧
        .cacheHit task.host task.port ttl task.called now addrs ∈ log
  | .finished (.negative now) result => result = .error timedOutError ∧
      .negativeHit task.host task.port task.called now ∈ log
  | _ => True

theorem Task.Noted.mono {task : Task} (h : task.Noted log) (hgrow : log <+: log') :
    task.Noted log' := by
  unfold Task.Noted at h ⊢
  cases hpc : task.pc with
  | finished via =>
    rw [hpc] at h
    cases via with
    | cache =>
      obtain ⟨httl, addrs, hresult, hmem⟩ := h
      exact ⟨httl, addrs, hresult, hgrow.subset hmem⟩
    | negative now => exact ⟨h.1, hgrow.subset h.2⟩
    | lead | follow => trivial
  | cacheCheck | negativeCheck =>
    rw [hpc] at h
    exact h
  | _ => trivial

def CacheNoted (log : List Event) (cache : Cache) : Prop :=
  ∀ key entry, cache.lookup key = some entry →
    ∃ host port, DnsCacheKey.new host port = key ∧
      .stored host port entry.addrs entry.insertedAt ∈ log

def NegativeNoted (log : List Event) (negative : Negative) : Prop :=
  ∀ key time, negative.lookup key = some time →
    ∃ host port, DnsCacheKey.new host port = key ∧ .timedOut host port time ∈ log

structure Kept (s : DnsResolver) : Prop where
  cache : CacheNoted s.log s.cache
  negative : NegativeNoted s.log s.negative
  cacheBound : Table.size s.cache ≤ maxDnsCacheEntries
  negativeBound : Table.size s.negative ≤ maxNegativeCacheEntries
  tasks : ∀ id task, s.tasks.lookup id = some task → task.called ≤ s.clock ∧ task.Noted s.log
  log : Justified s.log

theorem Kept.new : Kept DnsResolver.new :=
  ⟨fun _ _ h => (by cases h), fun _ _ h => (by cases h), Nat.zero_le _, Nat.zero_le _,
    fun _ _ h => (by cases h), fun before e after h => by
      cases before <;> cases h⟩

section

variable {s : DnsResolver} {id : ℕ} {task : Task}

theorem Kept.goto (h : Kept s) {cache : Cache} {negative : Negative} (hgrow : s.log <+: log)
    (hcache : CacheNoted log cache) (hnegative : NegativeNoted log negative)
    (hcacheBound : Table.size cache ≤ maxDnsCacheEntries)
    (hnegativeBound : Table.size negative ≤ maxNegativeCacheEntries) (hlog : Justified log)
    (htask : s.tasks.lookup id = some task) (hpc : ({ task with pc := pc } : Task).Noted log) :
    Kept (DnsResolver.goto ⟨s.clock, cache, negative, inflight, channel, s.tasks, log⟩ id task pc) := by
  refine ⟨hcache, hnegative, hcacheBound, hnegativeBound, fun k t ht => ?_, hlog⟩
  by_cases hk : k = id
  · subst hk
    have hself : (s.tasks.insert k { task with pc := pc }).lookup k = some t := ht
    rw [AList.lookup_insert] at hself
    cases hself
    exact ⟨(h.tasks k task htask).1, hpc⟩
  · have hother : (s.tasks.insert id { task with pc := pc }).lookup k = some t := ht
    rw [AList.lookup_insert_ne hk] at hother
    exact ⟨(h.tasks k t hother).1, (h.tasks k t hother).2.mono hgrow⟩

theorem Kept.move (h : Kept s) (htask : s.tasks.lookup id = some task)
    (hpc : ({ task with pc := pc } : Task).Noted s.log) :
    Kept (DnsResolver.goto { s with inflight := inflight, channel := channel } id task pc) :=
  h.goto (prefix_refl _) h.cache h.negative h.cacheBound h.negativeBound h.log htask hpc

theorem CacheNoted.mono {cache cache' : Cache} (h : CacheNoted log cache) (hgrow : log <+: log')
    (hsub : ∀ {k entry}, cache'.lookup k = some entry → cache.lookup k = some entry) :
    CacheNoted log' cache' := by
  intro key entry hentry
  obtain ⟨host, port, hkey, hmem⟩ := h key entry (hsub hentry)
  exact ⟨host, port, hkey, hgrow.subset hmem⟩

theorem NegativeNoted.mono {negative negative' : Negative} (h : NegativeNoted log negative)
    (hgrow : log <+: log')
    (hsub : ∀ {k time}, negative'.lookup k = some time → negative.lookup k = some time) :
    NegativeNoted log' negative' := by
  intro key time htime
  obtain ⟨host, port, hkey, hmem⟩ := h key time (hsub htime)
  exact ⟨host, port, hkey, hgrow.subset hmem⟩

theorem looked_noted (task : Task) (result : Lookup) (log : List Event) :
    ({ task with pc := DnsResolver.looked task result } : Task).Noted log := by
  unfold DnsResolver.looked
  split
  · trivial
  · trivial
  · split <;> trivial

namespace Kept
variable (h : Kept s) (htask : s.tasks.lookup id = some task)
include h htask

theorem cacheCheck {ttl : ℕ} (hpc : task.pc = .cacheCheck ttl now) (pick : DnsCacheKey)
    (hgo : s.go id task pick = some t) : Kept t := by
  obtain ⟨httl, hcalled⟩ : task.ttl = some ttl ∧ task.called ≤ now := by
    have hnoted := (h.tasks id task htask).2
    unfold Task.Noted at hnoted
    rwa [hpc] at hnoted
  have hbound := le_trans (cached_size s.cache task.key now ttl) h.cacheBound
  simp only [DnsResolver.go, hpc] at hgo
  split at hgo
  · rename_i addrs hfound
    cases hgo
    obtain ⟨entry, hentry, rfl, hlive⟩ := cached_hit hfound
    obtain ⟨host, port, hkey, hstored⟩ := h.cache _ _ hentry
    obtain ⟨hhost, rfl⟩ := sameHost_of_key hkey
    have hgrow := prefix_append s.log
      [Event.cacheHit task.host task.port ttl task.called now entry.addrs]
    refine h.goto hgrow (h.cache.mono hgrow cached_sub) (h.negative.mono hgrow fun hk => hk) hbound
      h.negativeBound (h.log.append ⟨hcalled, host, _, hstored, hhost, hlive⟩) htask ?_
    exact ⟨httl, entry.addrs, rfl, mem_append_right _ (mem_singleton.mpr rfl)⟩
  · cases hgo
    refine h.goto (prefix_refl _) (h.cache.mono (prefix_refl _) cached_sub) h.negative hbound
      h.negativeBound h.log htask ?_
    exact trivial

theorem negativeCheck (hpc : task.pc = .negativeCheck now) (pick : DnsCacheKey)
    (hgo : s.go id task pick = some t) : Kept t := by
  have hcalled : task.called ≤ now := by
    have hnoted := (h.tasks id task htask).2
    unfold Task.Noted at hnoted
    rwa [hpc] at hnoted
  have hbound := le_trans (negativelyCached_size s.negative task.key now) h.negativeBound
  simp only [DnsResolver.go, hpc] at hgo
  split at hgo
  · rename_i hhit
    cases hgo
    obtain ⟨time, htime, hlive⟩ := negativelyCached_hit hhit
    obtain ⟨host, port, hkey, hfailed⟩ := h.negative _ _ htime
    obtain ⟨hhost, rfl⟩ := sameHost_of_key hkey
    have hgrow := prefix_append s.log
      [Event.negativeHit task.host task.port task.called now]
    refine h.goto hgrow (h.cache.mono hgrow fun hk => hk) (h.negative.mono hgrow negativelyCached_sub)
      h.cacheBound hbound (h.log.append ⟨hcalled, host, _, hfailed, hhost, hlive⟩) htask ?_
    exact ⟨rfl, mem_append_right _ (mem_singleton.mpr rfl)⟩
  · cases hgo
    refine h.goto (prefix_refl _) h.cache
      (h.negative.mono (prefix_refl _) negativelyCached_sub) h.cacheBound hbound h.log htask ?_
    exact trivial

theorem storing {ttl : ℕ} {addrs : List SocketAddr} (hpc : task.pc = .storing ttl addrs)
    (pick : DnsCacheKey) (hgo : s.go id task pick = some t) : Kept t := by
  simp only [DnsResolver.go, hpc] at hgo
  cases hgo
  have hgrow := prefix_append s.log [Event.stored task.host task.port addrs s.clock]
  refine h.goto hgrow ?_ (h.negative.mono hgrow fun hk => hk) (store_size h.cacheBound ..)
    h.negativeBound (h.log.append ?_) htask ?_
  · intro key entry hentry
    rcases Table.lookup_insertBounded hentry with ⟨rfl, rfl⟩ | hold
    · exact ⟨task.host, task.port, rfl, mem_append_right _ (mem_singleton.mpr rfl)⟩
    · exact h.cache.mono hgrow (fun hk => hk) key entry hold
  · exact trivial
  · exact trivial

theorem failingAt {e : Socks5.IoKind × String} (hpc : task.pc = .failingAt now e)
    (pick : DnsCacheKey) (hgo : s.go id task pick = some t) : Kept t := by
  simp only [DnsResolver.go, hpc] at hgo
  cases hgo
  have hgrow := prefix_append s.log [Event.timedOut task.host task.port now]
  refine h.goto hgrow (h.cache.mono hgrow fun hk => hk) ?_ h.cacheBound
    (storeNegative_size h.negativeBound ..) (h.log.append ?_) htask ?_
  · intro key time htime
    rcases Table.lookup_insertBounded htime with ⟨rfl, rfl⟩ | hold
    · exact ⟨task.host, task.port, rfl, mem_append_right _ (mem_singleton.mpr rfl)⟩
    · exact h.negative.mono hgrow (fun hk => hk) key time hold
  · exact trivial
  · exact trivial

theorem silent (hpc : ∀ log, ({ task with pc := pc } : Task).Noted log) :
    Kept (DnsResolver.goto { s with inflight := inflight, channel := channel } id task pc) :=
  h.move htask (hpc s.log)

theorem go {pick : DnsCacheKey} (hgo : s.go id task pick = some t) : Kept t := by
  have hcalled := (h.tasks id task htask).1
  cases hpc : task.pc with
  | cacheCheck => exact h.cacheCheck htask hpc pick hgo
  | negativeCheck now => exact h.negativeCheck htask hpc pick hgo
  | storing => exact h.storing htask hpc pick hgo
  | failingAt => exact h.failingAt htask hpc pick hgo
  | top =>
    simp only [DnsResolver.go, hpc] at hgo
    split at hgo
    · rename_i ttl httl
      cases hgo
      have hnoted : ({ task with pc := .cacheCheck ttl s.clock } : Task).Noted s.log :=
        ⟨httl, hcalled⟩
      exact h.move htask hnoted
    · cases hgo
      exact h.silent htask fun _ => by trivial
  | uncached =>
    simp only [DnsResolver.go, hpc] at hgo
    cases hgo
    have hnoted : ({ task with pc := .negativeCheck s.clock } : Task).Noted s.log := hcalled
    exact h.move htask hnoted
  | join | following =>
    simp only [DnsResolver.go, hpc] at hgo
    split at hgo
    · cases hgo
      exact h.silent htask fun _ => by trivial
    · cases hgo
      exact h.silent htask fun _ => by trivial
  | failing | publishing | sending | closing =>
    simp only [DnsResolver.go, hpc] at hgo
    cases hgo
    exact h.silent htask fun _ => by trivial
  | waiting =>
    simp only [DnsResolver.go, hpc] at hgo
    split at hgo
    · cases hgo
      exact h.silent htask fun _ => by trivial
    · split at hgo
      · cases hgo
        exact h.silent htask fun _ => by trivial
      · cases hgo
  | leading | finished | closed | cancelled =>
    simp only [DnsResolver.go, hpc] at hgo
    cases hgo

theorem act {a : Act} (hact : s.act id task a = some t) : Kept t := by
  cases a with
  | go => exact h.go htask hact
  | answer result =>
    simp only [DnsResolver.act] at hact
    split at hact
    · cases hact
      exact h.silent htask (looked_noted task result)
    · cases hact
  | expire =>
    simp only [DnsResolver.act] at hact
    split at hact
    · split at hact
      · cases hact
        exact h.silent htask (looked_noted task _)
      · cases hact
    · cases hact
  | cancel =>
    simp only [DnsResolver.act, DnsResolver.cancel] at hact
    split at hact
    · cases hact
      exact h.silent htask fun _ => by trivial
    · cases hact
      exact h.silent htask fun _ => by trivial
    · cases hact
      exact h.silent htask fun _ => by trivial
    · cases hact
      exact h.silent htask fun _ => by trivial
    · cases hact

end Kept

theorem Kept.step (h : Kept s) {label : Label} (hstep : s.step label = some t) : Kept t := by
  cases label with
  | tick d =>
    cases hstep
    refine { h with tasks := fun k task htask => ?_ }
    obtain ⟨hcalled, hnoted⟩ := h.tasks k task htask
    exact ⟨Nat.le_trans hcalled (Nat.le_add_right s.clock d), hnoted⟩
  | call id =>
    simp only [DnsResolver.step] at hstep
    split at hstep
    · cases hstep
    cases hstep
    refine { h with tasks := fun k task htask => ?_ }
    by_cases hk : k = id
    · subst hk
      rw [AList.lookup_insert] at htask
      cases htask
      exact ⟨le_refl _, trivial⟩
    · rw [AList.lookup_insert_ne hk] at htask
      exact h.tasks k task htask
  | run id a =>
    simp only [DnsResolver.step] at hstep
    split at hstep
    · cases hstep
    · rename_i htask
      exact h.act htask hstep

end

/-- In every run: a call answered from a cache has what was stored less than the lifetime before,
for the same port and the same host but for case, and the caches stay within their bounds. -/
theorem cache_answers_fresh {s : DnsResolver} (h : Lts.Reachable DnsResolver.step .new s) :
    (∀ id task ttl now result, s.tasks.lookup id = some task →
      task.pc = .finished (.cache ttl now) result →
      task.ttl = some ttl ∧ task.called ≤ now ∧ ∃ addrs host time before after,
        result = .ok addrs ∧
        s.log = before ++ .cacheHit task.host task.port ttl task.called now addrs :: after ∧
        .stored host task.port addrs time ∈ before ∧ SameHost host task.host ∧ now < time + ttl) ∧
    (∀ id task now result, s.tasks.lookup id = some task →
      task.pc = .finished (.negative now) result →
      task.called ≤ now ∧ ∃ host time before after,
        s.log = before ++ .negativeHit task.host task.port task.called now :: after ∧
        .timedOut host task.port time ∈ before ∧ SameHost host task.host ∧
        now < time + negativeCacheTtl) ∧
    Table.size s.cache ≤ maxDnsCacheEntries ∧
    Table.size s.negative ≤ maxNegativeCacheEntries := by
  have hkept : Kept s := h.invariant Kept.new fun _ _ _ hs hstep => hs.step hstep
  refine ⟨?_, ?_, hkept.cacheBound, hkept.negativeBound⟩
  · intro id task ttl now result htask hpc
    have hnoted := (hkept.tasks id task htask).2
    unfold Task.Noted at hnoted
    rw [hpc] at hnoted
    obtain ⟨httl, addrs, hresult, hmem⟩ := hnoted
    obtain ⟨before, after, hlog⟩ := List.append_of_mem hmem
    obtain ⟨hcalled, host, time, hstored, hhost, hlive⟩ := hkept.log before _ after hlog
    exact ⟨httl, hcalled, addrs, host, time, before, after, hresult, hlog, hstored, hhost, hlive⟩
  · intro id task now result htask hpc
    have hnoted := (hkept.tasks id task htask).2
    unfold Task.Noted at hnoted
    rw [hpc] at hnoted
    obtain ⟨before, after, hlog⟩ := List.append_of_mem hnoted.2
    obtain ⟨hcalled, host, time, hfailed, hhost, hlive⟩ := hkept.log before _ after hlog
    exact ⟨hcalled, host, time, before, after, hlog, hfailed, hhost, hlive⟩

def cachedLabels : List Label :=
  let go (id : ℕ) : Label := .run id (.go ⟨[], 0⟩)
  [.call 0 "example".toList 80 (some 100) 5, go 0, go 0, go 0, go 0, go 0,
    .run 0 (.answer (.ok [.v4 1 80])), go 0, .tick 3,
    .call 1 "EXAMPLE".toList 80 (some 4) 5, go 1, go 1]

theorem cache_answers_fresh_hit :
    ∃ s task, Lts.exec DnsResolver.step .new cachedLabels = some s ∧
      s.tasks.lookup 1 = some task ∧ task.pc = .finished (.cache 4 3) (.ok [.v4 1 80]) ∧
      ∃ host time before after,
        s.log = before ++ .cacheHit task.host task.port 4 task.called 3 [.v4 1 80] :: after ∧
        .stored host task.port [.v4 1 80] time ∈ before ∧ SameHost host task.host ∧
        3 < time + 4 := by
  have hpc : (Lts.exec DnsResolver.step .new cachedLabels).bind
      (fun s => (s.tasks.lookup 1).map Task.pc) =
      some (.finished (.cache 4 3) (.ok [.v4 1 80])) := by
    decide +kernel
  obtain ⟨s, hs, htasks⟩ := Option.bind_eq_some_iff.mp hpc
  obtain ⟨task, htask, hfinished⟩ := Option.map_eq_some_iff.mp htasks
  have hreach := Lts.reachable_exec cachedLabels (.start DnsResolver.new) hs
  obtain ⟨-, -, addrs, host, time, before, after, hresult, hlog, hstored, hhost, hlive⟩ :=
    (cache_answers_fresh hreach).1 1 task 4 3 _ htask hfinished
  cases hresult
  exact ⟨s, task, hs, htask, hfinished, host, time, before, after, hlog, hstored, hhost, hlive⟩

end Alighieri.Dns
