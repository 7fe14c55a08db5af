import Alighieri.Dns.Resolver

/-!
# One lookup in flight for each key

`flight` forgets everything of the resolver but the registry, the channels and the phase of each
call; each step of the resolver is a step of the single flight or leaves it alone.
-/

namespace Alighieri.Dns
open Singleflight Function

def Pc.phase (key : DnsCacheKey) : Pc → Phase DnsCacheKey Lookup
  | .top | .cacheCheck _ _ | .uncached | .negativeCheck _ | .join => .idle
  | .leading _ | .storing _ _ | .failing _ | .failingAt _ _ | .publishing _ => .leading key
  | .sending result => .ending key (some result)
  | .closing => .ending key none
  | .following leader | .waiting leader => .following key leader
  | .finished .lead result => .ended key (some result)
  | .finished (.follow leader) result => .received key leader result
  | .finished (.cache _ _) _ | .finished (.negative _) _ => .gone
  | .closed => .ended key none
  | .cancelled => .gone

/- A leader that has neither begun to publish nor been dropped. -/
def Pc.Leads : Pc → Prop
  | .leading _ | .storing _ _ | .failing _ | .failingAt _ _ | .publishing _ => True
  | _ => False

def Pc.Leaves : Pc → Prop
  | .sending _ | .closing => True
  | _ => False

def Label.actor : Label → Option ℕ
  | .run id _ => some id
  | _ => none

variable {t : DnsResolver}

namespace DnsResolver

def flight (s : DnsResolver) : State DnsCacheKey Lookup where
  registry k := s.inflight.lookup k
  phase i := (s.tasks.lookup i).elim .idle fun t => t.pc.phase t.key
  channel := s.channel

section

variable {s : DnsResolver} {id : ℕ} {task : Task}

theorem flight_phase (h : s.tasks.lookup id = some task) :
    s.flight.phase id = task.pc.phase task.key := by
  show (s.tasks.lookup id).elim _ _ = _
  rw [h]
  rfl

theorem flight_goto (s : DnsResolver) (id : ℕ) (task : Task) (pc : Pc) :
    (s.goto id task pc).flight = s.flight.goto id (pc.phase task.key) := by
  have hphase : (s.goto id task pc).flight.phase =
      update s.flight.phase id (pc.phase task.key) := by
    funext i
    show ((s.tasks.insert id { task with pc := pc }).lookup i).elim _ _ = _
    by_cases hi : i = id
    · subst hi
      rw [AList.lookup_insert, update_self]
      rfl
    · rw [AList.lookup_insert_ne hi, update_of_ne hi]
      rfl
  show State.mk _ (s.goto id task pc).flight.phase _ = _
  rw [hphase]
  rfl

theorem flight_same (h : s.tasks.lookup id = some task) {pc : Pc}
    (hpc : pc.phase task.key = task.pc.phase task.key) : (s.goto id task pc).flight = s.flight := by
  rw [flight_goto, hpc, ← flight_phase h]
  show State.mk _ (update s.flight.phase id (s.flight.phase id)) _ = _
  rw [update_eq_self]

theorem flight_insert (s : DnsResolver) (key : DnsCacheKey) (id : ℕ) :
    { s with inflight := s.inflight.insert key id }.flight =
      { s.flight with registry := update s.flight.registry key (some id) } := by
  have hregistry : (fun k => (s.inflight.insert key id).lookup k) =
      update s.flight.registry key (some id) := by
    funext k
    by_cases hk : k = key
    · subst hk
      rw [AList.lookup_insert, update_self]
    · rw [AList.lookup_insert_ne hk, update_of_ne hk]
      rfl
  show State.mk (fun k => (s.inflight.insert key id).lookup k) _ _ = _
  rw [hregistry]
  rfl

theorem flight_erase (s : DnsResolver) (key : DnsCacheKey) :
    { s with inflight := s.inflight.erase key }.flight =
      { s.flight with registry := update s.flight.registry key none } := by
  have hregistry : (fun k => (s.inflight.erase key).lookup k) =
      update s.flight.registry key none := by
    funext k
    by_cases hk : k = key
    · subst hk
      rw [AList.lookup_erase, update_self]
    · rw [AList.lookup_erase_ne hk, update_of_ne hk]
      rfl
  show State.mk (fun k => (s.inflight.erase key).lookup k) _ _ = _
  rw [hregistry]
  rfl

theorem flight_leave (h : s.tasks.lookup id = some task) {pc : Pc} {o : Option Lookup}
    (hfrom : task.pc.phase task.key = .leading task.key)
    (hpc : pc.phase task.key = .ending task.key o) :
    Step id s.flight ({ s with inflight := s.inflight.erase task.key }.goto id task pc).flight := by
  have hstep := Step.leave (i := id) o ((flight_phase h).trans hfrom)
  rw [flight_goto, flight_erase, hpc]
  exact hstep

theorem flight_step {s' : DnsResolver} {pc : Pc} (hs : s'.flight = s.flight)
    (h : Step id s.flight (s.flight.goto id (pc.phase task.key))) :
    Step id s.flight (s'.goto id task pc).flight := by
  rw [flight_goto, hs]
  exact h

theorem go_flight {pick : DnsCacheKey} (h : s.tasks.lookup id = some task)
    (hgo : s.go id task pick = some t) : t.flight = s.flight ∨ Step id s.flight t.flight := by
  have hphase := flight_phase h
  unfold go at hgo
  cases hpc : task.pc with
  | top =>
    rw [hpc] at hgo
    simp only at hgo
    split at hgo
    · cases hgo
      exact .inl (flight_same h (by rw [hpc]; rfl))
    · cases hgo
      exact .inl (flight_same h (by rw [hpc]; rfl))
  | cacheCheck =>
    rw [hpc] at hgo hphase
    simp only at hgo
    split at hgo
    · cases hgo
      exact .inr (flight_step rfl (.stop (.inl hphase)))
    · cases hgo
      exact .inl (@flight_same { s with cache := _ } id task h _ (by rw [hpc]; rfl))
  | uncached | failing e =>
    rw [hpc] at hgo
    cases hgo
    exact .inl (flight_same h (by rw [hpc]; rfl))
  | negativeCheck now =>
    rw [hpc] at hgo hphase
    simp only at hgo
    split at hgo
    · cases hgo
      exact .inr (flight_step rfl (.stop (.inl hphase)))
    · cases hgo
      exact .inl (@flight_same { s with negative := _ } id task h _ (by rw [hpc]; rfl))
  | join =>
    rw [hpc] at hgo hphase
    simp only at hgo
    split at hgo
    · rename_i hleader
      cases hgo
      exact .inr (flight_step rfl (.follow hphase hleader))
    · rename_i hnone
      cases hgo
      right
      have hstep := Step.lead (i := id) hphase hnone
      rw [flight_goto, flight_insert]
      exact hstep
  | leading | finished | closed | cancelled =>
    rw [hpc] at hgo
    cases hgo
  | storing =>
    rw [hpc] at hgo
    cases hgo
    exact .inl (@flight_same (note { s with cache := _ } _) id task h _ (by rw [hpc]; rfl))
  | failingAt =>
    rw [hpc] at hgo
    cases hgo
    exact .inl (@flight_same (note { s with negative := _ } _) id task h _ (by rw [hpc]; rfl))
  | publishing =>
    rw [hpc] at hgo
    cases hgo
    exact .inr (flight_leave h (by rw [hpc]; rfl) rfl)
  | sending | closing =>
    rw [hpc] at hgo hphase
    cases hgo
    right
    have hstep := Step.close (i := id) hphase
    rw [flight_goto]
    exact hstep
  | following leader =>
    rw [hpc] at hgo hphase
    simp only at hgo
    split at hgo
    · rename_i hresult
      cases hgo
      exact .inr (flight_step rfl (.receive hphase hresult))
    · cases hgo
      exact .inl (flight_same h (by rw [hpc]; rfl))
  | waiting leader =>
    rw [hpc] at hgo hphase
    simp only at hgo
    split at hgo
    · cases hgo
      exact .inl (flight_same h (by rw [hpc]; rfl))
    · rename_i hnone
      split at hgo
      · rename_i hclosed
        cases hgo
        exact .inr (flight_step rfl (.retry hphase hnone hclosed))
      · cases hgo

theorem looked_phase (task : Task) (result : Lookup) :
    (looked task result).phase task.key = .leading task.key := by
  unfold looked
  split
  · rfl
  · rfl
  · split <;> rfl

theorem cancel_flight (h : s.tasks.lookup id = some task) (hcancel : s.cancel id task = some t) :
    t.flight = s.flight ∨ Step id s.flight t.flight := by
  have hphase := flight_phase h
  have hstop : Unled (task.pc.phase task.key) →
      Step id s.flight (s.goto id task .cancelled).flight := by
    intro hunled
    rw [← hphase] at hunled
    have hstep := Step.stop (i := id) hunled
    rw [flight_goto]
    exact hstep
  unfold cancel at hcancel
  split at hcancel
  · rename_i hpc
    cases hcancel
    exact .inr (hstop (by rw [hpc]; exact .inl rfl))
  · rename_i leader hpc
    cases hcancel
    exact .inr (hstop (by rw [hpc]; exact .inr ⟨_, leader, rfl⟩))
  · rename_i hpc
    cases hcancel
    exact .inr (flight_leave h (by rw [hpc]; rfl) rfl)
  · rename_i hpc
    cases hcancel
    exact .inr (flight_leave h (by rw [hpc]; rfl) rfl)
  · cases hcancel

theorem act_flight {a : Act} (h : s.tasks.lookup id = some task) (hact : s.act id task a = some t) :
    t.flight = s.flight ∨ Step id s.flight t.flight := by
  have hlooked : ∀ {deadline result}, task.pc = .leading deadline →
      (s.goto id task (looked task result)).flight = s.flight := by
    intro deadline result hpc
    exact flight_same h ((looked_phase task result).trans (by rw [hpc]; rfl))
  cases a with
  | go => exact go_flight h hact
  | answer result =>
    simp only [act] at hact
    split at hact
    · rename_i hpc
      cases hact
      exact .inl (hlooked hpc)
    · cases hact
  | expire =>
    simp only [act] at hact
    split at hact
    · rename_i hpc
      split at hact
      · cases hact
        exact .inl (hlooked hpc)
      · cases hact
    · cases hact
  | cancel => exact cancel_flight h hact

end

theorem step_flight {s : DnsResolver} {label : Label} (hstep : s.step label = some t) :
    t.flight = s.flight ∨ ∃ i, label.actor = some i ∧ Step i s.flight t.flight := by
  cases label with
  | tick d =>
    cases hstep
    exact .inl rfl
  | call id host port ttl timeout =>
    simp only [step] at hstep
    split at hstep
    · cases hstep
    rename_i hnone
    cases hstep
    left
    have hphase : (fun i => ((s.tasks.insert id ⟨host, port, ttl, timeout, s.clock, .top⟩).lookup
        i).elim .idle fun t => t.pc.phase t.key) = s.flight.phase := by
      funext i
      by_cases hi : i = id
      · subst hi
        show _ = (s.tasks.lookup i).elim _ _
        rw [AList.lookup_insert, hnone]
        rfl
      · rw [AList.lookup_insert_ne hi]
        rfl
    show State.mk _ (fun i => ((s.tasks.insert id _).lookup i).elim _ _) _ = _
    rw [hphase]
    rfl
  | run id a =>
    simp only [step] at hstep
    split at hstep
    · cases hstep
    rename_i htask
    rcases act_flight htask hstep with hsame | hmove
    · exact .inl hsame
    · exact .inr ⟨id, rfl, hmove⟩

theorem flight_inv {s : DnsResolver} (h : Lts.Reachable step new s) : Inv s.flight := by
  refine h.invariant (P := fun s => Inv s.flight) Inv.start fun s label t hs hstep => ?_
  rcases step_flight hstep with hsame | ⟨i, -, hmove⟩
  · rw [hsame]
    exact hs
  · exact hs.step hmove

end DnsResolver

/-! ### Reading the flight back -/

theorem Pc.phase_leading {pc : Pc} {key k : DnsCacheKey} :
    pc.phase key = .leading k ↔ key = k ∧ pc.Leads := by
  cases pc with
  | finished via => cases via <;> simp [Pc.phase, Pc.Leads]
  | _ => simp [Pc.phase, Pc.Leads]

theorem Pc.phase_ending {pc : Pc} {key k : DnsCacheKey} {o : Option Lookup}
    (h : pc.phase key = .ending k o) : key = k ∧ pc.Leaves := by
  cases pc with
  | finished via => cases via <;> simp [Pc.phase] at h
  | _ => simp_all [Pc.phase, Pc.Leaves]

theorem Pc.phase_ended {pc : Pc} {key k : DnsCacheKey} {r : Lookup}
    (h : pc.phase key = .ended k (some r)) : key = k ∧ pc = .finished .lead r := by
  cases pc with
  | finished via => cases via <;> simp_all [Pc.phase]
  | _ => simp [Pc.phase] at h

namespace DnsResolver

variable {s : DnsResolver}

theorem exists_task {i : ℕ} {p : Phase DnsCacheKey Lookup} (h : s.flight.phase i = p)
    (hp : p ≠ .idle) : ∃ task, s.tasks.lookup i = some task ∧ task.pc.phase task.key = p := by
  cases htask : s.tasks.lookup i with
  | none =>
    have hidle : s.flight.phase i = .idle := by
      show (s.tasks.lookup i).elim _ _ = _
      rw [htask]
      rfl
    exact absurd (h.symm.trans hidle) hp
  | some task => exact ⟨task, rfl, (flight_phase htask).symm.trans h⟩

theorem inflight_iff (h : Lts.Reachable step new s) {k : DnsCacheKey} {l : ℕ} :
    s.inflight.lookup k = some l ↔
      ∃ task, s.tasks.lookup l = some task ∧ task.key = k ∧ task.pc.Leads := by
  have hregistered := (flight_inv h).registered k l
  constructor
  · intro hk
    obtain ⟨task, htask, hphase⟩ := exists_task (hregistered.mp hk) (by simp)
    exact ⟨task, htask, Pc.phase_leading.mp hphase⟩
  · rintro ⟨task, htask, hleads⟩
    exact hregistered.mpr ((flight_phase htask).trans (Pc.phase_leading.mpr hleads))

theorem leaves_closes {l : ℕ} {task : Task} (htask : s.tasks.lookup l = some task)
    (hleaves : task.pc.Leaves) (pick : DnsCacheKey) :
    ∃ t, s.step (.run l (.go pick)) = some t ∧ (t.channel l).closed = true := by
  simp only [step, htask, act, go]
  cases hpc : task.pc with
  | sending | closing => exact ⟨_, rfl, by simp [goto]⟩
  | _ =>
    rw [hpc] at hleaves
    exact absurd hleaves id

theorem waiting_goes_on {i l : ℕ} {task : Task} (htask : s.tasks.lookup i = some task)
    (hpc : task.pc = .waiting l) (hclosed : (s.channel l).closed = true) (pick : DnsCacheKey) :
    ∃ t, s.step (.run i (.go pick)) = some t := by
  simp only [step, htask, act, go, hpc]
  cases (s.channel l).value with
  | some r => exact ⟨_, rfl⟩
  | none => exact ⟨_, if_pos hclosed⟩

/-- In every interleaving: a key has at most one leader, whose entry is there until it begins to
publish or is dropped; a follower returns what its leader published; only the leader takes its
entry away; and no follower is left waiting. -/
theorem resolver_singleflight {s : DnsResolver} (h : Lts.Reachable step new s) :
    (∀ i j ti tj, s.tasks.lookup i = some ti → s.tasks.lookup j = some tj → ti.pc.Leads →
      tj.pc.Leads → ti.key = tj.key → i = j) ∧
    (∀ k l, s.inflight.lookup k = some l ↔
      ∃ task, s.tasks.lookup l = some task ∧ task.key = k ∧ task.pc.Leads) ∧
    (∀ i task l result, s.tasks.lookup i = some task →
      task.pc = .finished (.follow l) result →
      ∃ leader, s.tasks.lookup l = some leader ∧ leader.key = task.key ∧
        leader.pc = .finished .lead result) ∧
    (∀ label t k l, s.step label = some t → s.inflight.lookup k = some l →
      t.inflight.lookup k ≠ some l → label.actor = some l) ∧
    ∀ i task l, s.tasks.lookup i = some task → task.pc = .waiting l → ∀ pick,
      (∃ leader, s.tasks.lookup l = some leader ∧ leader.key = task.key ∧
        (s.inflight.lookup task.key = some l ∧ leader.pc.Leads ∨
          leader.pc.Leaves ∧
            ∃ t, s.step (.run l (.go pick)) = some t ∧ (t.channel l).closed = true)) ∨
      ∃ t, s.step (.run i (.go pick)) = some t := by
  have hinv := flight_inv h
  refine ⟨?_, fun k l => inflight_iff h, ?_, ?_, ?_⟩
  · intro i j ti tj hi hj hti htj hkey
    have hli := (inflight_iff h).mpr ⟨ti, hi, hkey, hti⟩
    have hlj := (inflight_iff h).mpr ⟨tj, hj, rfl, htj⟩
    rw [hli] at hlj
    exact Option.some.inj hlj
  · intro i task l result hi hpc
    have hreceived : s.flight.phase i = .received task.key l result := by
      rw [flight_phase hi, hpc]
      rfl
    have hended := hinv.received i task.key l result hreceived
    obtain ⟨leader, hl, hphase⟩ := exists_task hended (by simp)
    exact ⟨leader, hl, Pc.phase_ended hphase⟩
  · intro label t k l hstep hk ht
    rcases step_flight hstep with hsame | ⟨i, hactor, hmove⟩
    · have hregistry : t.inflight.lookup k = s.inflight.lookup k :=
        congrFun (congrArg State.registry hsame) k
      exact absurd (hregistry.trans hk) ht
    · rw [hactor, hinv.removes hmove hk ht]
  · intro i task l hi hpc pick
    have hfollowing : s.flight.phase i = .following task.key l := by
      rw [flight_phase hi, hpc]
      rfl
    rcases hinv.not_stranded hfollowing with hregistered | ⟨o, hending⟩ | hclosed
    · obtain ⟨leader, hl, hkey, hleads⟩ := (inflight_iff h).mp hregistered
      exact .inl ⟨leader, hl, hkey, .inl ⟨hregistered, hleads⟩⟩
    · obtain ⟨leader, hl, hphase⟩ := exists_task hending (by simp)
      obtain ⟨hkey, hleaves⟩ := Pc.phase_ending hphase
      exact .inl ⟨leader, hl, hkey, .inr ⟨hleaves, leaves_closes hl hleaves pick⟩⟩
    · exact .inr (waiting_goes_on hi hpc hclosed pick)

def sharedLabels : List Label :=
  let go (id : ℕ) : Label := .run id (.go ⟨[], 0⟩)
  [.call 0 "Example".toList 80 none 5, .call 1 "example".toList 80 none 5,
    go 0, go 0, go 0, go 0, go 1, go 1, go 1, go 1, go 1,
    .run 0 (.answer (.ok [.v4 1 80])), go 0, go 0, go 1, go 1]

theorem resolver_singleflight_shared :
    ∃ s task leader, Lts.exec step new sharedLabels = some s ∧ s.tasks.lookup 1 = some task ∧
      task.pc = .finished (.follow 0) (.ok [.v4 1 80]) ∧ s.tasks.lookup 0 = some leader ∧
      leader.key = task.key ∧ leader.pc = .finished .lead (.ok [.v4 1 80]) := by
  have hpc : (Lts.exec step new sharedLabels).bind (fun s => (s.tasks.lookup 1).map Task.pc) =
      some (.finished (.follow 0) (.ok [.v4 1 80])) := by
    decide +kernel
  obtain ⟨s, hs, htasks⟩ := Option.bind_eq_some_iff.mp hpc
  obtain ⟨task, htask, hfinished⟩ := Option.map_eq_some_iff.mp htasks
  have hreach := Lts.reachable_exec sharedLabels (.start new) hs
  obtain ⟨leader, hleader, hkey, hlead⟩ :=
    (resolver_singleflight hreach).2.2.1 1 task 0 _ htask hfinished
  exact ⟨s, task, leader, hs, htask, hfinished, hleader, hkey, hlead⟩

end DnsResolver

end Alighieri.Dns
