import Mathlib.Algebra.Order.Field.Basic
import Mathlib.Algebra.Order.BigOperators.Group.List
import Mathlib.Tactic.Linarith

/-!
# Releases within a burst and a rate

A limiter keeps a level that each release raises by its amount and that never passes `rate` times
the time of the release. If no release leaves the level more than `burst` short of its own time,
any interval sees at most `burst` and what the rate allows for its length.
-/

namespace Envelope
open List

structure Release (K : Type) where
  amount : K
  time : K

section Levels

variable {K : Type} [Field K] [LinearOrder K]

def between (s t : K) (rs : List (Release K)) : K :=
  ((rs.filter fun r => s ≤ r.time ∧ r.time ≤ t).map Release.amount).sum

theorem between_snoc_in {s t : K} {r : Release K} (rs : List (Release K))
    (h : s ≤ r.time ∧ r.time ≤ t) : between s t (rs ++ [r]) = between s t rs + r.amount := by
  simp only [between, filter_append, filter_cons, decide_eq_true h, if_true,
    filter_nil, map_append, map_cons, map_nil, sum_append, sum_cons,
    sum_nil, add_zero]

theorem between_snoc_out {s t : K} {r : Release K} (rs : List (Release K))
    (h : ¬ (s ≤ r.time ∧ r.time ≤ t)) : between s t (rs ++ [r]) = between s t rs := by
  simp only [between, filter_append, filter_cons, decide_eq_false h, Bool.false_eq_true,
    if_false, filter_nil, append_nil]

/-- What was released from `s` to `t` is accounted for by a level the limiter has had and
that was reached by `t`. -/
def Covered (rate burst level : K) (rs : List (Release K)) : Prop :=
  ∀ s t, between s t rs = 0 ∨
    ∃ l ≤ level, l ≤ rate * t ∧ between s t rs ≤ burst + l - rate * s

variable {rate burst level level' : K} {rs : List (Release K)} {r : Release K}

theorem Covered.nil : Covered rate burst level [] := fun _ _ => .inl rfl

theorem Covered.mono (h : Covered rate burst level rs) (hle : level ≤ level') :
    Covered rate burst level' rs := by
  intro s t
  rcases h s t with hzero | ⟨l, hl, htime, hsum⟩
  · exact .inl hzero
  · exact .inr ⟨l, hl.trans hle, htime, hsum⟩

end Levels

variable {K : Type} [Field K] [LinearOrder K] [IsStrictOrderedRing K]
variable {rate burst level level' : K} {rs : List (Release K)} {r : Release K}

theorem Covered.release (h : Covered rate burst level rs) (hrate : 0 ≤ rate)
    (hpos : 0 ≤ r.amount) (hraise : level + r.amount ≤ level') (htime : level' ≤ rate * r.time)
    (hburst : r.amount + rate * r.time ≤ burst + level') :
    Covered rate burst level' (rs ++ [r]) := by
  intro s t
  by_cases hin : s ≤ r.time ∧ r.time ≤ t
  · rw [between_snoc_in rs hin]
    have hs : rate * s ≤ rate * r.time := mul_le_mul_of_nonneg_left hin.1 hrate
    have ht : rate * r.time ≤ rate * t := mul_le_mul_of_nonneg_left hin.2 hrate
    refine .inr ⟨level', le_rfl, htime.trans ht, ?_⟩
    rcases h s t with hzero | ⟨l, hl, -, hsum⟩
    · linarith
    · linarith
  · rw [between_snoc_out rs hin]
    exact h.mono (by linarith) s t

theorem Covered.between_le (h : Covered rate burst level rs) (hrate : 0 ≤ rate)
    (hburst : 0 ≤ burst) {s t : K} (hst : s ≤ t) :
    between s t rs ≤ burst + rate * (t - s) := by
  have hlen : 0 ≤ rate * (t - s) := mul_nonneg hrate (sub_nonneg.mpr hst)
  rcases h s t with hzero | ⟨l, -, htime, hsum⟩
  · rw [hzero]
    exact add_nonneg hburst hlen
  · rw [mul_sub]
    linarith

end Envelope
