import Mathlib.Tactic.Basic
import Mathlib.Data.List.Basic

/-!
# Fixed windows

A fixed-window counter lets at most `limit` events pass in a window of length
`width`, and starts the next window no earlier than the last one has ended. An
interval no longer than one window then meets at most two of them.
-/

namespace FixedWindow
open List

/- A window: when it started, and the times of its events. -/
abbrev Group := ℕ × List ℕ

variable {groups : List Group} {a b : ℕ}

/-- The windows of a counter, newest first. -/
structure Spaced (width limit : ℕ) (groups : List Group) : Prop where
  inside : ∀ g ∈ groups, ∀ t ∈ g.2, g.1 ≤ t ∧ t < g.1 + width
  bounded : ∀ g ∈ groups, g.2.length ≤ limit
  apart : groups.Pairwise fun later earlier => earlier.1 + width ≤ later.1

def times (groups : List Group) : List ℕ := groups.flatMap Prod.snd

def between (a b : ℕ) (ts : List ℕ) : ℕ := ts.countP fun t => decide (a ≤ t ∧ t ≤ b)

variable {width limit : ℕ}

theorem Spaced.nil : Spaced width limit [] := ⟨nofun, nofun, .nil⟩

theorem Spaced.tail {g : Group} (h : Spaced width limit (g :: groups)) :
    Spaced width limit groups where
  inside := fun g' hg => h.inside g' (mem_cons_of_mem _ hg)
  bounded := fun g' hg => h.bounded g' (mem_cons_of_mem _ hg)
  apart := (pairwise_cons.mp h.apart).2

theorem Spaced.cons {g : Group} (h : Spaced width limit groups)
    (hin : ∀ t ∈ g.2, g.1 ≤ t ∧ t < g.1 + width) (hle : g.2.length ≤ limit)
    (hafter : ∀ g' ∈ groups.head?, g'.1 + width ≤ g.1) : Spaced width limit (g :: groups) := by
  refine ⟨?_, ?_, pairwise_cons.mpr ⟨?_, h.apart⟩⟩
  · intro g' hg
    rcases mem_cons.mp hg with rfl | hg
    · exact hin
    · exact h.inside g' hg
  · intro g' hg
    rcases mem_cons.mp hg with rfl | hg
    · exact hle
    · exact h.bounded g' hg
  · cases groups with
    | nil => nofun
    | cons last =>
      have hlast := hafter last rfl
      intro g' hg
      rcases mem_cons.mp hg with rfl | hg
      · exact hlast
      · have hbefore := (pairwise_cons.mp h.apart).1 g' hg
        omega

theorem Spaced.extend {start now : ℕ} {ts : List ℕ}
    (h : Spaced width limit ((start, ts) :: groups)) (hnow : start ≤ now ∧ now < start + width)
    (hle : ts.length < limit) : Spaced width limit ((start, now :: ts) :: groups) := by
  have hhead := pairwise_cons.mp h.apart
  refine ⟨?_, ?_, pairwise_cons.mpr ⟨hhead.1, hhead.2⟩⟩
  · intro g hg
    rcases mem_cons.mp hg with rfl | hg
    · intro t ht
      rcases mem_cons.mp ht with rfl | ht
      · exact hnow
      · exact h.inside _ mem_cons_self t ht
    · exact h.inside g (mem_cons_of_mem _ hg)
  · intro g hg
    rcases mem_cons.mp hg with rfl | hg
    · exact hle
    · exact h.bounded g (mem_cons_of_mem _ hg)

theorem between_le_length (a b : ℕ) (ts : List ℕ) : between a b ts ≤ ts.length :=
  countP_le_length

theorem between_times_cons (a b : ℕ) (g : Group) (groups : List Group) :
    between a b (times (g :: groups)) = between a b g.2 + between a b (times groups) := by
  simp only [between, times, flatMap_cons, countP_append]

theorem between_eq_zero (h : Spaced width limit groups) (hend : ∀ g ∈ groups, g.1 + width ≤ a) :
    between a b (times groups) = 0 := by
  refine countP_eq_zero.mpr ?_
  intro t ht hab
  obtain ⟨g, hg, htg⟩ := mem_flatMap.mp ht
  have hin := h.inside g hg t htg
  have hbefore := hend g hg
  simp only [decide_eq_true_eq] at hab
  omega

theorem between_le_of_started (h : Spaced width limit groups) (hstart : ∀ g ∈ groups, g.1 ≤ a) :
    between a b (times groups) ≤ limit := by
  cases groups with
  | nil => exact Nat.zero_le _
  | cons g earlier =>
    have hzero : between a b (times earlier) = 0 := by
      refine between_eq_zero h.tail ?_
      intro g' hg'
      have hbefore := (pairwise_cons.mp h.apart).1 g' hg'
      have hg := hstart g mem_cons_self
      omega
    have hg := Nat.le_trans (between_le_length a b g.2) (h.bounded g mem_cons_self)
    rw [between_times_cons, hzero]
    exact hg

/-- An interval no longer than one window holds at most two windows' events. -/
theorem between_le (h : Spaced width limit groups) (hab : b ≤ a + width) :
    between a b (times groups) ≤ 2 * limit := by
  induction groups with
  | nil => exact Nat.zero_le _
  | cons g earlier ih =>
    rw [between_times_cons]
    by_cases hg : g.1 ≤ b
    · have hone := Nat.le_trans (between_le_length a b g.2) (h.bounded g mem_cons_self)
      have hrest : between a b (times earlier) ≤ limit := by
        refine between_le_of_started h.tail ?_
        intro g' hg'
        have hbefore := (pairwise_cons.mp h.apart).1 g' hg'
        omega
      omega
    · have hnone : between a b g.2 = 0 := by
        refine countP_eq_zero.mpr ?_
        intro t ht hbt
        have hin := h.inside g mem_cons_self t ht
        simp only [decide_eq_true_eq] at hbt
        omega
      have hrest := ih h.tail
      omega

end FixedWindow
