import Alighieri.Relay.Select

/-!
# The watchdog after a normal remote close

After a normal close nothing but the watchdog bounds the download. The close branch arms a ticker
for it; the recheck after an upload error observes the same close and does not.
-/

namespace Alighieri.Relay
open Lts Loop

variable {l l' : Loop} {idle : Option ℕ} {t : Turn}

/- After a close, while the download runs: a ticker is armed, it fires at least every 15 s, and a
tick after `idle` (or 10 s) without activity ends the relay. -/
def Watched (idle : Option ℕ) (l : Loop) : Prop :=
  l.closeSeen = true → l.downDone = false →
    ∃ period, l.ticker = some period ∧ period ≤ 15000 ∧
      ∀ t : Turn, t.down = none → t.tick = true → idle.getD postCloseDrainTimeout ≤ t.idleFor →
        turn idle l t = some .watchdog

/- `closed` was pending when the close branch polled it, the upload failed, and `closed` then
answers a normal close. -/
def ClosedAtRecheck (l : Loop) (t : Turn) : Prop :=
  enabled l.closeSeen t.closed = none ∧ (∃ e, enabled l.upDone t.up = some (.error e)) ∧
    t.recheck = some (.ok ())

/- The condition on a turn: an idle timeout is set, the download is over, or the
close is not first observed by the recheck. -/
def ArmsTicker (idle : Option ℕ) (l : Loop) (t : Turn) : Prop :=
  idle.isSome = true ∨ l.downDone = true ∨ ¬ClosedAtRecheck l t

/- A close stops the upload; with an idle timeout the ticker is armed from the start, without one
only by a close. -/
structure LoopInv (idle : Option ℕ) (l : Loop) : Prop where
  close_stops : l.closeSeen = true → l.upDone = true
  idle_armed : idle.isSome = true → l.ticker.isSome = true
  early_unarmed : idle = none → l.closeSeen = false → l.ticker = none
  bound : ∀ period, l.ticker = some period → period ≤ 15000

theorem idleTickPeriod_le (idle : ℕ) : idleTickPeriod idle ≤ 15000 := by
  unfold idleTickPeriod
  omega

theorem loopInv_start (idle : Option ℕ) : LoopInv idle (start idle) := by
  refine ⟨?_, ?_, ?_, ?_⟩
  · intro h
    simp [start] at h
  · intro h
    simpa [start] using h
  · intro h _
    simp [start, h]
  · intro period hp
    cases idle with
    | none => simp [start] at hp
    | some d =>
      have he : idleTickPeriod d = period := by simpa [start] using hp
      rw [← he]
      exact idleTickPeriod_le d

theorem settle_next (h : (settle l).next = some l') : l' = l := by
  unfold settle at h
  split at h
  · cases h
  · cases h
    rfl

theorem onTick_next {n : ℕ} (h : (onTick idle l n).next = some l') : l' = l := by
  unfold onTick at h
  split at h
  · split at h
    · cases h
    · cases h
      rfl
  · cases h
    rfl

theorem enabled_some {off : Bool} {poll : Option IoResult} {r : IoResult}
    (h : enabled off poll = some r) : off = false := by
  by_contra hn
  simp [enabled, hn] at h

theorem step_cases (h : step idle l t = some l') :
    (enabled l.closeSeen t.closed = some (.ok ()) ∧ l' = { l with
        upDone := true
        closeSeen := true
        ticker := l.ticker.orElse fun _ => some (idleTickPeriod postCloseDrainTimeout) }) ∨
    (ClosedAtRecheck l t ∧ l' = { l with closeSeen := true, upDone := true }) ∨
    (enabled l.closeSeen t.closed = none ∧ ¬ClosedAtRecheck l t ∧
      (l' = { l with upDone := true } ∨ l' = { l with downDone := true } ∨ l' = l)) := by
  unfold step turn at h
  cases hc : enabled l.closeSeen t.closed with
  | some r =>
    simp only [hc, Option.bind_some] at h
    cases r with
    | error e => cases h
    | ok u => exact .inl ⟨rfl, settle_next h⟩
  | none =>
    simp only [hc] at h
    cases hu : enabled l.upDone t.up with
    | some r =>
      simp only [hu, Option.bind_some] at h
      cases r with
      | ok u =>
        refine .inr (.inr ⟨rfl, ?_, .inl (settle_next h)⟩)
        rintro ⟨_, ⟨e, he⟩, _⟩
        rw [hu] at he
        cases he
      | error e =>
        cases hr : t.recheck with
        | none =>
          rw [hr] at h
          cases h
        | some c =>
          rw [hr] at h
          cases c with
          | error e' => cases h
          | ok u => exact .inr (.inl ⟨⟨hc, ⟨e, hu⟩, hr⟩, settle_next h⟩)
    | none =>
      have hno : ¬ClosedAtRecheck l t := by
        rintro ⟨_, ⟨e, he⟩, _⟩
        rw [hu] at he
        cases he
      refine .inr (.inr ⟨rfl, hno, .inr ?_⟩)
      simp only [hu] at h
      cases hd : enabled l.downDone t.down with
      | some r =>
        simp only [hd, Option.bind_some] at h
        cases r with
        | error e => cases h
        | ok u => exact .inl (settle_next h)
      | none =>
        simp only [hd] at h
        split at h
        · exact .inr (onTick_next h)
        · cases h

theorem loopInv_step (hi : LoopInv idle l) (h : step idle l t = some l') : LoopInv idle l' := by
  obtain ⟨hstop, hidle, hearly, hbound⟩ := hi
  obtain ⟨_, rfl⟩ | ⟨_, rfl⟩ | ⟨_, _, rfl | rfl | rfl⟩ := step_cases h
  · refine ⟨fun _ => rfl, ?_, fun _ hc => by simp at hc, ?_⟩
    · intro _
      cases l.ticker <;> simp
    · intro period hp
      cases ht : l.ticker with
      | none =>
        have he : idleTickPeriod postCloseDrainTimeout = period := by simpa [ht] using hp
        rw [← he]
        exact idleTickPeriod_le _
      | some q =>
        have he : q = period := by simpa [ht] using hp
        rw [← he]
        exact hbound q ht
  · exact ⟨fun _ => rfl, hidle, fun _ hc => by simp at hc, hbound⟩
  · exact ⟨fun _ => rfl, hidle, hearly, hbound⟩
  · exact ⟨hstop, hidle, hearly, hbound⟩
  · exact ⟨hstop, hidle, hearly, hbound⟩

theorem loopInv_reachable (h : Reachable (step idle) (start idle) l) : LoopInv idle l :=
  h.invariant (loopInv_start idle) fun _ _ _ hi hs => loopInv_step hi hs

theorem watched_of_armed (hi : LoopInv idle l)
    (ha : l.closeSeen = true → l.downDone = false → l.ticker.isSome = true) : Watched idle l := by
  intro hseen hdown
  obtain ⟨period, hp⟩ := Option.isSome_iff_exists.mp (ha hseen hdown)
  refine ⟨period, hp, hi.bound period hp, ?_⟩
  intro t htd htick hquiet
  have hup := hi.close_stops hseen
  simp [turn, enabled, hseen, hdown, hup, htd, hp, htick, onTick, limit, hquiet]

theorem armed_step (hi : LoopInv idle l)
    (ha : l.closeSeen = true → l.downDone = false → l.ticker.isSome = true)
    (hok : ArmsTicker idle l t) (h : step idle l t = some l') :
    l'.closeSeen = true → l'.downDone = false → l'.ticker.isSome = true := by
  intro hseen hdown
  obtain ⟨_, rfl⟩ | ⟨hrec, rfl⟩ | ⟨_, _, rfl | rfl | rfl⟩ := step_cases h
  · cases l.ticker <;> simp
  · -- the recheck leaves the ticker as it was
    rcases hok with hidle | hdone | hno
    · exact hi.idle_armed hidle
    · exact absurd hdown (by simp [hdone])
    · exact absurd hrec hno
  · exact ha hseen hdown
  · simp at hdown
  · exact ha hseen hdown

theorem watched_reachable (h : ReachableBy (step idle) (ArmsTicker idle) (start idle) l) :
    Watched idle l := by
  refine watched_of_armed (loopInv_reachable h.reachable) ?_
  induction h with
  | start =>
    intro hseen
    simp [start] at hseen
  | next hr hok hs ih => exact armed_step (loopInv_reachable hr.reachable) ih hok hs

/- A turn outside the condition observes the close with no ticker armed. -/
theorem unwatched_step (hi : LoopInv idle l) (hbad : ¬ArmsTicker idle l t)
    (h : step idle l t = some l') : ¬Watched idle l' := by
  simp only [ArmsTicker, not_or, not_not] at hbad
  obtain ⟨hidle, hdown, hrec⟩ := hbad
  have hnone : idle = none := by simpa using hidle
  have hopen : l.downDone = false := by simpa using hdown
  obtain ⟨hc, _⟩ | ⟨_, rfl⟩ | ⟨_, hno, _⟩ := step_cases h
  · rw [hrec.1] at hc
    cases hc
  · -- the upload was still polled, so no close had been seen and no ticker was armed
    obtain ⟨_, ⟨e, he⟩, _⟩ := hrec
    have hup := enabled_some he
    have hseen : l.closeSeen = false := by
      by_contra hn
      have := hi.close_stops (by simpa using hn)
      simp [this] at hup
    intro hw
    obtain ⟨period, hp, _⟩ := hw rfl hopen
    rw [show l.ticker = none from hi.early_unarmed hnone hseen] at hp
    cases hp
  · exact absurd hrec hno

/- In every run whose turns all meet the condition, every state reached after a normal close has a
watched drain; the first turn that does not leads to a drain that nothing watches. -/
theorem drain_watched_exactly (idle : Option ℕ) :
    (∀ l, ReachableBy (step idle) (ArmsTicker idle) (start idle) l → Watched idle l) ∧
    (∀ l t l', Reachable (step idle) (start idle) l → step idle l t = some l' →
      ¬ArmsTicker idle l t → ¬Watched idle l') :=
  ⟨fun _ h => watched_reachable h,
    fun _ _ _ hr hs hbad => unwatched_step (loopInv_reachable hr) hbad hs⟩

def brokenUpload : Turn where
  closed := none
  up := some (.error ⟨['b', 'r', 'o', 'k', 'e', 'n']⟩)
  recheck := some (.ok ())
  down := none
  tick := false
  idleFor := 0

/- Without an idle timeout, one turn leads to a seen close, an unfinished
download and no ticker at all. -/
theorem drain_unwatched_after_recheck :
    ∃ l, Reachable (step none) (start none) l ∧ l.closeSeen = true ∧ l.downDone = false ∧
      l.ticker = none ∧ ¬Watched none l := by
  have hs : step none (start none) brokenUpload =
      some ⟨true, false, true, none⟩ := by decide
  refine ⟨⟨true, false, true, none⟩, (Reachable.start _).next hs, rfl, rfl, rfl, ?_⟩
  intro hw
  obtain ⟨period, hp, _⟩ := hw rfl rfl
  cases hp

theorem drain_watched_exactly_close :
    Watched none ⟨true, false, true, some 2500⟩ ∧ ¬Watched none ⟨true, false, true, none⟩ := by
  constructor
  · refine (drain_watched_exactly none).1 _
      (ReachableBy.start.next (a := ⟨some (.ok ()), none, none, none, false, 0⟩) ?_ rfl)
    refine Or.inr (Or.inr ?_)
    rintro ⟨hc, -⟩
    cases hc
  · refine (drain_watched_exactly none).2 (start none) brokenUpload _ (Reachable.start _) rfl ?_
    simp only [ArmsTicker, not_or, not_not]
    refine ⟨by decide, by decide, rfl, ⟨_, rfl⟩, rfl⟩

end Alighieri.Relay
