import Mathlib.Data.Nat.Notation
import Mathlib.Logic.Function.Basic
import Mathlib.Tactic.Basic

/-!
# Single flight

Callers that want the same thing at the same time share one piece of work. The first to ask for a
key registers as its leader; those who come while it is registered follow it. Registering, leaving
and closing the channel are separate steps, and a leader may leave without saying anything.
-/

namespace Singleflight
open Function

variable {l : ℕ}

/- What a caller is doing. A leader is named by its number, and so is its channel. -/
inductive Phase (κ ρ : Type) where
  | idle
  | leading (k : κ)
  /- No longer registered, the channel not yet closed. -/
  | ending (k : κ) (outcome : Option ρ)
  | ended (k : κ) (outcome : Option ρ)
  | following (k : κ) (leader : ℕ)
  | received (k : κ) (leader : ℕ) (outcome : ρ)
  | gone

structure Channel (ρ : Type) where
  value : Option ρ
  closed : Bool

def Channel.fresh {ρ : Type} : Channel ρ := ⟨none, false⟩

structure State (κ ρ : Type) where
  registry : κ → Option ℕ
  phase : ℕ → Phase κ ρ
  channel : ℕ → Channel ρ

variable {κ ρ : Type}

def State.start : State κ ρ := ⟨fun _ => none, fun _ => .idle, fun _ => .fresh⟩

def State.goto (s : State κ ρ) (i : ℕ) (p : Phase κ ρ) : State κ ρ :=
  { s with phase := update s.phase i p }

/- A leader that can still be followed for `k`, or could be before it left. -/
def Leader (p : Phase κ ρ) (k : κ) : Prop :=
  p = .leading k ∨ (∃ o, p = .ending k o) ∨ ∃ o, p = .ended k o

structure Inv (s : State κ ρ) : Prop where
  registered : ∀ k l, s.registry k = some l ↔ s.phase l = .leading k
  fresh : ∀ i, (∀ k o, s.phase i ≠ .ended k o) → s.channel i = .fresh
  closed : ∀ i k o, s.phase i = .ended k o → s.channel i = ⟨o, true⟩
  following : ∀ i k l, s.phase i = .following k l → Leader (s.phase l) k
  received : ∀ i k l r, s.phase i = .received k l r → s.phase l = .ended k (some r)

theorem Inv.start : Inv (State.start : State κ ρ) :=
  ⟨fun _ _ => ⟨fun h => (by cases h), fun h => (by cases h)⟩, fun _ _ => rfl,
    fun _ _ _ h => (by cases h), fun _ _ _ h => (by cases h), fun _ _ _ _ h => (by cases h)⟩

def Unled (p : Phase κ ρ) : Prop := p = .idle ∨ ∃ k l, p = .following k l

theorem Unled.not_leader {p : Phase κ ρ} (h : Unled p) (k : κ) : ¬ Leader p k := by
  rcases h with rfl | ⟨k', l, rfl⟩ <;> rintro (h | ⟨o, h⟩ | ⟨o, h⟩) <;> cases h

theorem phase_goto_self (s : State κ ρ) (i : ℕ) (p : Phase κ ρ) : (s.goto i p).phase i = p :=
  update_self ..

theorem phase_goto_other (s : State κ ρ) {i j : ℕ} (h : j ≠ i) (p : Phase κ ρ) :
    (s.goto i p).phase j = s.phase j :=
  update_of_ne h ..

section

variable {s : State κ ρ} {i : ℕ}

theorem Inv.channels (h : Inv s) (hi : ∀ k o, s.phase i ≠ .ended k o) {p : Phase κ ρ}
    (hp : ∀ k o, p ≠ .ended k o) :
    (∀ j, (∀ k o, (s.goto i p).phase j ≠ .ended k o) → s.channel j = .fresh) ∧
      ∀ j k o, (s.goto i p).phase j = .ended k o → s.channel j = ⟨o, true⟩ := by
  constructor
  · intro j hj
    refine h.fresh j fun k o he => ?_
    by_cases hji : j = i
    · subst hji
      exact hi k o he
    · exact hj k o ((phase_goto_other s hji p).trans he)
  · intro j k o hj
    by_cases hji : j = i
    · subst hji
      rw [phase_goto_self] at hj
      exact absurd hj (hp k o)
    · rw [phase_goto_other s hji] at hj
      exact h.closed j k o hj

theorem Inv.goto (h : Inv s) (hi : Unled (s.phase i)) {p : Phase κ ρ} (hp : ∀ k, ¬ Leader p k)
    (hfollow : ∀ k l, p = .following k l → Leader (s.phase l) k)
    (hreceive : ∀ k l r, p = .received k l r → s.phase l = .ended k (some r)) :
    Inv (s.goto i p) := by
  have hne : ∀ {l k}, Leader (s.phase l) k → l ≠ i := by
    rintro l k hl rfl
    exact hi.not_leader k hl
  obtain ⟨hfresh, hclosed⟩ := h.channels (i := i) (p := p)
    (fun k o hs => hi.not_leader k (.inr (.inr ⟨o, hs⟩))) (fun k o hs => hp k (.inr (.inr ⟨o, hs⟩)))
  refine ⟨fun k l => ?_, hfresh, hclosed, fun j k l hj => ?_, fun j k l r hj => ?_⟩
  · show s.registry k = some l ↔ _
    rw [h.registered]
    by_cases hl : l = i
    · subst hl
      rw [phase_goto_self]
      exact ⟨fun hs => absurd (.inl hs) (hi.not_leader k), fun hs => absurd (.inl hs) (hp k)⟩
    · rw [phase_goto_other s hl]
  · have hlead : Leader (s.phase l) k := by
      by_cases hji : j = i
      · subst hji
        rw [phase_goto_self] at hj
        exact hfollow k l hj
      · rw [phase_goto_other s hji] at hj
        exact h.following j k l hj
    rw [phase_goto_other s (hne hlead)]
    exact hlead
  · have hended : s.phase l = .ended k (some r) := by
      by_cases hji : j = i
      · subst hji
        rw [phase_goto_self] at hj
        exact hreceive k l r hj
      · rw [phase_goto_other s hji] at hj
        exact h.received j k l r hj
    rw [phase_goto_other s (hne (.inr (.inr ⟨_, hended⟩)))]
    exact hended

theorem Inv.attached (h : Inv s) {p : Phase κ ρ} (hfrom : ∀ k, Leader (s.phase i) k → Leader p k)
    (hended : ∀ k o, s.phase i = .ended k o → p = .ended k o) (hp : ∀ k l, p ≠ .following k l)
    (hr : ∀ k l r, p ≠ .received k l r) :
    (∀ j k l, (s.goto i p).phase j = .following k l → Leader ((s.goto i p).phase l) k) ∧
      ∀ j k l r, (s.goto i p).phase j = .received k l r →
        (s.goto i p).phase l = .ended k (some r) := by
  have hother : ∀ {j} {q : Phase κ ρ}, (s.goto i p).phase j = q → q ≠ p → s.phase j = q := by
    intro j q hj hq
    by_cases hji : j = i
    · subst hji
      rw [phase_goto_self] at hj
      exact absurd hj.symm hq
    · rwa [phase_goto_other s hji] at hj
  constructor
  · intro j k l hj
    have hlead := h.following j k l (hother hj fun heq => hp k l heq.symm)
    by_cases hl : l = i
    · subst hl
      rw [phase_goto_self]
      exact hfrom k hlead
    · rwa [phase_goto_other s hl]
  · intro j k l r hj
    have hend := h.received j k l r (hother hj fun heq => hr k l r heq.symm)
    by_cases hl : l = i
    · subst hl
      rw [phase_goto_self]
      exact hended k _ hend
    · rwa [phase_goto_other s hl]

theorem Inv.heard (h : Inv s) {k : κ} {r : ρ} (hl : Leader (s.phase l) k)
    (hr : (s.channel l).value = some r) : s.phase l = .ended k (some r) := by
  have hnot : (∀ k o, s.phase l ≠ .ended k o) → False := by
    intro hne
    rw [h.fresh l hne] at hr
    cases hr
  rcases hl with hl | ⟨o, hl⟩ | ⟨o, hl⟩
  · exact absurd (fun k' o' he => by rw [hl] at he; cases he) hnot
  · exact absurd (fun k' o' he => by rw [hl] at he; cases he) hnot
  · rw [h.closed l k o hl] at hr
    cases hr
    exact hl

theorem Inv.not_stranded (h : Inv s) {k : κ} (hi : s.phase i = .following k l) :
    s.registry k = some l ∨ (∃ o, s.phase l = .ending k o) ∨ (s.channel l).closed = true := by
  rcases h.following i k l hi with hl | hl | ⟨o, hl⟩
  · exact .inl ((h.registered k l).mpr hl)
  · exact .inr (.inl hl)
  · rw [h.closed l k o hl]
    exact .inr (.inr rfl)

theorem Inv.close (h : Inv s) {k : κ} {o : Option ρ} (hi : s.phase i = .ending k o) :
    Inv { s.goto i (.ended k o) with channel := update s.channel i ⟨o, true⟩ } := by
  obtain ⟨hfollow, hreceive⟩ := h.attached (i := i) (p := .ended k o)
    (fun k' hl => by
      rcases hl with hl | ⟨o', hl⟩ | ⟨o', hl⟩ <;> rw [hi] at hl <;> cases hl
      exact .inr (.inr ⟨o, rfl⟩))
    (fun k' o' he => by rw [hi] at he; cases he)
    (fun _ _ he => by cases he) (fun _ _ _ he => by cases he)
  refine ⟨fun k' l => ?_, fun j hj => ?_, fun j k' o' hj => ?_, hfollow, hreceive⟩
  · show s.registry k' = some l ↔ (s.goto i (.ended k o)).phase l = _
    rw [h.registered]
    by_cases hl : l = i
    · subst hl
      rw [phase_goto_self, hi]
      exact ⟨fun he => (by cases he), fun he => (by cases he)⟩
    · rw [phase_goto_other s hl]
  · show update s.channel i ⟨o, true⟩ j = _
    by_cases hji : j = i
    · subst hji
      exact absurd (phase_goto_self s j (.ended k o)) (hj k o)
    · rw [update_of_ne hji]
      exact h.fresh j fun k' o' he => hj k' o' ((phase_goto_other s hji _).trans he)
  · show update s.channel i ⟨o, true⟩ j = _
    by_cases hji : j = i
    · subst hji
      have hself := (phase_goto_self s j (.ended k o)).symm.trans hj
      cases hself
      rw [update_self]
    · rw [update_of_ne hji]
      exact h.closed j k' o' ((phase_goto_other s hji _).symm.trans hj)

variable [DecidableEq κ]

/- The steps of caller `i`. -/
inductive Step (i : ℕ) : State κ ρ → State κ ρ → Prop where
  | lead {s : State κ ρ} {k : κ} (hi : s.phase i = .idle) (hk : s.registry k = none) :
    Step i s { s.goto i (.leading k) with registry := update s.registry k (some i) }
  | follow {s : State κ ρ} {k : κ} {l : ℕ} (hi : s.phase i = .idle) (hk : s.registry k = some l) :
    Step i s (s.goto i (.following k l))
  | leave {s : State κ ρ} {k : κ} (o : Option ρ) (hi : s.phase i = .leading k) :
    Step i s { s.goto i (.ending k o) with registry := update s.registry k none }
  | close {s : State κ ρ} {k : κ} {o : Option ρ} (hi : s.phase i = .ending k o) :
    Step i s { s.goto i (.ended k o) with channel := update s.channel i ⟨o, true⟩ }
  | receive {s : State κ ρ} {k : κ} {l : ℕ} {r : ρ} (hi : s.phase i = .following k l)
    (hl : (s.channel l).value = some r) : Step i s (s.goto i (.received k l r))
  | retry {s : State κ ρ} {k : κ} {l : ℕ} (hi : s.phase i = .following k l)
    (hl : (s.channel l).value = none) (hc : (s.channel l).closed = true) :
    Step i s (s.goto i .idle)
  | stop {s : State κ ρ} (hi : s.phase i = .idle ∨ ∃ k l, s.phase i = .following k l) :
    Step i s (s.goto i .gone)

theorem Inv.lead (h : Inv s) {k : κ} (hi : s.phase i = .idle) (hk : s.registry k = none) :
    Inv { s.goto i (.leading k) with registry := update s.registry k (some i) } := by
  obtain ⟨hfollow, hreceive⟩ := h.attached (i := i) (p := .leading k)
    (fun k' hl => absurd hl (Unled.not_leader (.inl hi) k')) (fun k' o he => by rw [hi] at he; cases he)
    (fun _ _ he => by cases he) (fun _ _ _ he => by cases he)
  obtain ⟨hfresh, hclosed⟩ := h.channels (i := i) (p := .leading k)
    (fun k' o he => by rw [hi] at he; cases he) (fun k' o he => by cases he)
  refine ⟨fun k' l => ?_, hfresh, hclosed, hfollow, hreceive⟩
  · show update s.registry k (some i) k' = some l ↔ (s.goto i (.leading k)).phase l = _
    by_cases hkk : k' = k
    · subst hkk
      rw [update_self]
      by_cases hl : l = i
      · subst hl
        rw [phase_goto_self]
        exact ⟨fun _ => rfl, fun _ => rfl⟩
      · rw [phase_goto_other s hl, ← h.registered, hk]
        exact ⟨fun he => absurd (Option.some.inj he).symm hl, fun he => by cases he⟩
    · rw [update_of_ne hkk, h.registered]
      by_cases hl : l = i
      · subst hl
        rw [phase_goto_self, hi]
        exact ⟨fun he => (by cases he), fun he => absurd (Phase.leading.inj he).symm hkk⟩
      · rw [phase_goto_other s hl]

theorem Inv.leave (h : Inv s) {k : κ} (o : Option ρ) (hi : s.phase i = .leading k) :
    Inv { s.goto i (.ending k o) with registry := update s.registry k none } := by
  have hown := (h.registered k i).mpr hi
  obtain ⟨hfollow, hreceive⟩ := h.attached (i := i) (p := .ending k o)
    (fun k' hl => by
      rcases hl with hl | ⟨o', hl⟩ | ⟨o', hl⟩ <;> rw [hi] at hl <;> cases hl
      exact .inr (.inl ⟨o, rfl⟩))
    (fun k' o' he => by rw [hi] at he; cases he)
    (fun _ _ he => by cases he) (fun _ _ _ he => by cases he)
  obtain ⟨hfresh, hclosed⟩ := h.channels (i := i) (p := .ending k o)
    (fun k' o' he => by rw [hi] at he; cases he) (fun k' o' he => by cases he)
  refine ⟨fun k' l => ?_, hfresh, hclosed, hfollow, hreceive⟩
  · show update s.registry k none k' = some l ↔ (s.goto i (.ending k o)).phase l = _
    by_cases hl : l = i
    · subst hl
      rw [phase_goto_self]
      refine ⟨fun he => ?_, fun he => by cases he⟩
      by_cases hkk : k' = k
      · subst hkk
        rw [update_self] at he
        cases he
      · rw [update_of_ne hkk, h.registered, hi] at he
        exact absurd (Phase.leading.inj he).symm hkk
    · rw [phase_goto_other s hl, ← h.registered]
      by_cases hkk : k' = k
      · subst hkk
        rw [update_self, hown]
        exact ⟨fun he => (by cases he), fun he => absurd (Option.some.inj he).symm hl⟩
      · rw [update_of_ne hkk]

theorem Inv.step {t : State κ ρ} (h : Inv s) (hstep : Step i s t) : Inv t := by
  cases hstep with
  | lead hi hk => exact h.lead hi hk
  | @follow k l hi hk =>
    refine h.goto (.inl hi) ?_ ?_ (fun _ _ _ he => by cases he)
    · rintro k' (he | ⟨o, he⟩ | ⟨o, he⟩) <;> cases he
    · intro k' l' he
      cases he
      exact .inl ((h.registered k l).mp hk)
  | leave o hi => exact h.leave o hi
  | close hi => exact h.close hi
  | @receive k l r hi hl =>
    refine h.goto (.inr ⟨k, l, hi⟩) ?_ (fun _ _ he => by cases he) ?_
    · rintro k' (he | ⟨o, he⟩ | ⟨o, he⟩) <;> cases he
    · intro k' l' r' he
      cases he
      exact h.heard (h.following i k l hi) hl
  | @retry k l hi =>
    refine h.goto (.inr ⟨k, l, hi⟩) ?_ (fun _ _ he => by cases he) (fun _ _ _ he => by cases he)
    rintro k' (he | ⟨o, he⟩ | ⟨o, he⟩) <;> cases he
  | stop hi =>
    refine h.goto hi ?_ (fun _ _ he => by cases he) (fun _ _ _ he => by cases he)
    rintro k' (he | ⟨o, he⟩ | ⟨o, he⟩) <;> cases he

theorem Inv.removes {t : State κ ρ} (h : Inv s) (hstep : Step i s t) {k : κ}
    (hs : s.registry k = some l) (ht : t.registry k ≠ some l) : i = l := by
  cases hstep with
  | @lead k' hi hk =>
    by_cases hkk : k = k'
    · subst hkk
      rw [hk] at hs
      cases hs
    · exact absurd ((update_of_ne hkk ..).trans hs) ht
  | follow | close | receive | retry | stop => exact absurd hs ht
  | @leave k' o hi =>
    by_cases hkk : k = k'
    · subst hkk
      rw [(h.registered k i).mpr hi] at hs
      exact Option.some.inj hs
    · exact absurd ((update_of_ne hkk ..).trans hs) ht

end

end Singleflight
