import Alighieri.Lib.Transition
import Mathlib.Algebra.Order.Group.Nat

/-!
# Peeking into a stream (plugin.rs:425-517)

`Peekable` keeps bytes it has looked at in a buffer and replays them. The stream below is any
sequence of bytes, finite or not; what it answers to a poll is part of the label. A `peek` holds
the stream until it returns or is dropped at its await.
-/

namespace Alighieri.Plugin
open Lts List

variable {capacity n p : ℕ} {bytes : List UInt8}

def maxPeek : ℕ := 16 * 1024

def chunkLen : ℕ := 4096

/-- Byte `i` of a stream; none from its end on. -/
abbrev Source := ℕ → Option UInt8

def ahead (src : Source) : (p n : ℕ) → List UInt8
  | _, 0 => []
  | p, n + 1 =>
    match src p with
    | none => []
    | some b => b :: ahead src (p + 1) n

inductive Answer where
  | pending
  | failed
  | bytes (n : ℕ)
  deriving DecidableEq, Repr

inductive Output where
  | nothing
  | failed
  | peeked (want : ℕ) (bytes : List UInt8)
  | read (capacity : ℕ) (bytes : List UInt8)
  deriving DecidableEq, Repr

/-- `inner` is the position of the stream below, `task` the clamped `want` of a
`peek` that waits, with the `want` it was called with. `delivered` collects
what has been read. -/
structure Peekable where
  inner : ℕ
  buf : List UInt8
  pos : ℕ
  task : Option (ℕ × ℕ)
  delivered : List UInt8
  out : Output
  deriving DecidableEq, Repr

inductive Call where
  | peek (want : ℕ)
  | poll (answer : Answer)
  | finish
  | drop
  | read (capacity : ℕ) (answer : Answer)
  deriving DecidableEq, Repr

/-- `Ready(Ok(n))` of the stream below: at most `capacity` bytes, and none of
them only at the end or where none were asked for. -/
def innerRead (src : Source) (p capacity n : ℕ) : Option (List UInt8) :=
  if n ≤ capacity ∧ (ahead src p n).length = n ∧ (n = 0 → capacity = 0 ∨ src p = none) then
    some (ahead src p n)
  else none

namespace Peekable

def new : Peekable := ⟨0, [], 0, none, [], .nothing⟩

def peekReturn (s : Peekable) (asked want : ℕ) : Peekable :=
  { s with task := none, out := .peeked asked (s.buf.take (min want s.buf.length)) }

/- The branch of `poll_read` that replays the buffer. -/
def replay (s : Peekable) (capacity : ℕ) : Peekable :=
  let n := min (s.buf.drop s.pos).length capacity
  let bytes := (s.buf.drop s.pos).take n
  let s := { s with delivered := s.delivered ++ bytes, out := .read capacity bytes }
  if s.pos + n = s.buf.length then { s with buf := [], pos := 0 } else { s with pos := s.pos + n }

def step (src : Source) (s : Peekable) : Call → Option Peekable
  | .peek want =>
    if s.task = none then
      some { s with
        buf := s.buf.drop s.pos, pos := 0, task := some (want, min want maxPeek), out := .nothing }
    else none
  | .poll answer =>
    match s.task with
    | none => none
    | some (asked, want) =>
      if s.buf.length < want then
        match answer with
        | .pending => some { s with out := .nothing }
        | .failed => some { s with task := none, out := .failed }
        | .bytes n =>
          match innerRead src s.inner (min (want - s.buf.length) chunkLen) n with
          | none => none
          | some bytes =>
            if n = 0 then some (s.peekReturn asked want)
            else some { s with inner := s.inner + n, buf := s.buf ++ bytes, out := .nothing }
      else none
  | .finish =>
    match s.task with
    | none => none
    | some (asked, want) => if want ≤ s.buf.length then some (s.peekReturn asked want) else none
  | .drop => some { s with task := none, out := .nothing }
  | .read capacity answer =>
    if s.task ≠ none then none
    else if capacity = 0 then some { s with out := .read 0 [] }
    else if s.pos < s.buf.length then some (s.replay capacity)
    else
      match answer with
      | .pending => some { s with out := .nothing }
      | .failed => some { s with out := .failed }
      | .bytes n =>
        match innerRead src s.inner capacity n with
        | none => none
        | some bytes =>
          some { s with
            inner := s.inner + n
            delivered := s.delivered ++ bytes
            out := .read capacity bytes }

end Peekable

/-! ### Positions of the stream below -/

variable {src : Source} {s t : Peekable}

theorem ahead_append {m : ℕ} (h : (ahead src p m).length = m) (n : ℕ) :
    ahead src p (m + n) = ahead src p m ++ ahead src (p + m) n := by
  induction m generalizing p with
  | zero => simp [ahead]
  | succ m ih =>
    rw [Nat.succ_add]
    cases hb : src p with
    | none => simp [ahead, hb] at h
    | some b =>
      simp only [ahead, hb, length_cons, Nat.add_right_cancel_iff, cons_append] at h ⊢
      rw [ih h, Nat.add_right_comm p 1 m, Nat.add_assoc p m 1]

theorem ahead_eq_nil (h : src p = none) (n : ℕ) : ahead src p n = [] := by
  cases n with
  | zero => rfl
  | succ n => simp only [ahead, h]

theorem ahead_take (p n k : ℕ) : (ahead src p n).take k = ahead src p (min k n) := by
  induction n generalizing p k with
  | zero => simp [ahead]
  | succ n ih =>
    cases k with
    | zero => simp [ahead]
    | succ k =>
      rw [Nat.succ_min_succ]
      unfold ahead
      split
      · rfl
      · rw [take_succ_cons, ih]

theorem innerRead_some (h : innerRead src p capacity n = some bytes) :
    n ≤ capacity ∧ bytes.length = n ∧ bytes = ahead src p n ∧
      (n = 0 → capacity = 0 ∨ src p = none) := by
  unfold innerRead at h
  split at h
  · rename_i hn
    cases h
    exact ⟨hn.1, hn.2.1, rfl, hn.2.2⟩
  · cases h

/-! ### The wrapper is a position in the stream -/

/-- What has been read, then what is kept, are the bytes taken from the stream
below. -/
structure Peekable.Inv (src : Source) (s : Peekable) : Prop where
  held : s.delivered ++ s.buf.drop s.pos = ahead src 0 s.inner
  count : s.delivered.length + (s.buf.drop s.pos).length = s.inner
  bounded : s.buf.length ≤ maxPeek
  task : ∀ asked want, s.task = some (asked, want) → s.pos = 0 ∧ want = min asked maxPeek
  peeked : ∀ want bytes, s.out = .peeked want bytes →
    bytes = ahead src s.delivered.length (min want maxPeek)
  read : ∀ capacity, s.out = .read capacity [] → capacity = 0 ∨ src s.delivered.length = none

namespace Peekable.Inv

theorem new : Peekable.new.Inv src :=
  ⟨rfl, rfl, Nat.zero_le _, by simp [Peekable.new], by simp [Peekable.new], by simp [Peekable.new]⟩

theorem full (h : s.Inv src) : (ahead src 0 s.inner).length = s.inner := by
  rw [← h.held, length_append, h.count]

theorem delivered (h : s.Inv src) : s.delivered = ahead src 0 s.delivered.length := by
  have htake := @ahead_take src 0 s.inner s.delivered.length
  rw [← h.held, take_left, Nat.min_eq_left (by rw [← h.count]; exact Nat.le_add_right _ _)]
    at htake
  exact htake

theorem pending (h : s.Inv src) :
    s.buf.drop s.pos = ahead src s.delivered.length (s.buf.drop s.pos).length := by
  have hlen : (ahead src 0 s.delivered.length).length = s.delivered.length := by
    rw [← h.delivered]
  have hsplit := ahead_append hlen (s.buf.drop s.pos).length
  rw [h.count, ← h.held, ← h.delivered, Nat.zero_add] at hsplit
  exact append_cancel_left hsplit

theorem quiet (h : s.Inv src) (hheld : t.delivered = s.delivered)
    (hbuf : t.buf.drop t.pos = s.buf.drop s.pos) (hinner : t.inner = s.inner)
    (hlen : t.buf.length ≤ maxPeek)
    (htask : ∀ asked want, t.task = some (asked, want) → t.pos = 0 ∧ want = min asked maxPeek)
    (hpeeked : ∀ want bytes, t.out = .peeked want bytes →
      bytes = ahead src s.delivered.length (min want maxPeek))
    (hread : ∀ capacity, t.out = .read capacity [] →
      capacity = 0 ∨ src s.delivered.length = none) : t.Inv src := by
  refine ⟨?_, ?_, hlen, htask, ?_, ?_⟩
  · rw [hheld, hbuf, hinner]
    exact h.held
  · rw [hheld, hbuf, hinner]
    exact h.count
  · rw [hheld]
    exact hpeeked
  · rw [hheld]
    exact hread

theorem peekReturn (h : s.Inv src) {asked want : ℕ} (htask : s.task = some (asked, want))
    (hend : want ≤ s.buf.length ∨ src s.inner = none) : (s.peekReturn asked want).Inv src := by
  obtain ⟨hpos, rfl⟩ := h.task asked want htask
  refine h.quiet rfl rfl rfl h.bounded (by simp [Peekable.peekReturn]) ?_
    (by simp [Peekable.peekReturn])
  intro want' bytes hout
  cases hout
  have hpending := h.pending
  have hcount := h.count
  rw [hpos, drop_zero] at hpending hcount
  rcases hend with hle | hnone
  · rw [Nat.min_eq_left hle]
    conv => lhs; rw [hpending]
    rw [ahead_take, Nat.min_eq_left hle]
  · rcases Nat.le_total (min asked maxPeek) s.buf.length with hle | hle
    · rw [Nat.min_eq_left hle]
      conv => lhs; rw [hpending]
      rw [ahead_take, Nat.min_eq_left hle]
    · obtain ⟨k, hk⟩ := Nat.exists_eq_add_of_le hle
      have hlen := congrArg List.length hpending
      rw [Nat.min_eq_right hle, take_length, hk, ahead_append hlen.symm, hcount,
        ahead_eq_nil hnone, append_nil]
      exact hpending

theorem take (h : s.Inv src) (hn : bytes.length = n) (hbytes : bytes = ahead src s.inner n)
    (hinner : t.inner = s.inner + n)
    (hmove : t.delivered ++ t.buf.drop t.pos = s.delivered ++ s.buf.drop s.pos ++ bytes)
    (hlen : t.buf.length ≤ maxPeek)
    (htask : ∀ asked want, t.task = some (asked, want) → t.pos = 0 ∧ want = min asked maxPeek)
    (hpeeked : ∀ want bytes, t.out ≠ .peeked want bytes)
    (hread : ∀ capacity, t.out = .read capacity [] →
      capacity = 0 ∨ src t.delivered.length = none) : t.Inv src := by
  refine ⟨?_, ?_, hlen, htask, fun want bytes hout => absurd hout (hpeeked want bytes), hread⟩
  · rw [hmove, h.held, hinner, ahead_append h.full, Nat.zero_add, ← hbytes]
  · have hcount := congrArg List.length hmove
    rw [length_append, length_append, length_append, h.count, hn] at hcount
    rw [hcount, hinner]

theorem replay (h : s.Inv src) (hpos : s.pos < s.buf.length) (htask : s.task = none)
    (hcap : capacity ≠ 0) : (s.replay capacity).Inv src := by
  have hlen : (s.buf.drop s.pos).length = s.buf.length - s.pos := length_drop
  have hsplit : s.delivered ++ (s.buf.drop s.pos).take (min (s.buf.drop s.pos).length capacity) ++
      s.buf.drop (s.pos + min (s.buf.drop s.pos).length capacity) = ahead src 0 s.inner := by
    rw [append_assoc, ← drop_drop, take_append_drop]
    exact h.held
  have hsome : ∀ bytes, bytes = (s.buf.drop s.pos).take (min (s.buf.drop s.pos).length capacity) →
      bytes ≠ [] := by
    rintro bytes rfl hnil
    have hzero := congrArg List.length hnil
    rw [length_take, length_nil] at hzero
    omega
  have hcount := congrArg List.length hsplit
  rw [length_append, h.full] at hcount
  unfold Peekable.replay
  simp only
  split
  · rename_i hall
    rw [hall, drop_length, append_nil] at hsplit
    rw [hall, drop_length, length_nil, Nat.add_zero] at hcount
    refine ⟨?_, ?_, Nat.zero_le _, by simp [htask], by simp, ?_⟩
    · simpa using hsplit
    · simpa using hcount
    · intro k hout
      simp only [Output.read.injEq] at hout
      exact absurd hout.2 (hsome _ rfl)
  · refine ⟨hsplit, hcount, h.bounded, by simp [htask], by simp, ?_⟩
    intro k hout
    simp only [Output.read.injEq] at hout
    exact absurd hout.2 (hsome _ rfl)

theorem step {call : Call} (h : s.Inv src) (hs : s.step src call = some t) : t.Inv src := by
  cases call with
  | peek =>
    simp only [Peekable.step, Option.ite_none_right_eq_some, Option.some.injEq] at hs
    obtain ⟨-, rfl⟩ := hs
    refine h.quiet rfl rfl rfl ?_ ?_ (by simp) (by simp)
    · exact Nat.le_trans (length_drop ▸ Nat.sub_le _ _) h.bounded
    · intro asked clamped hsome
      cases hsome
      exact ⟨rfl, rfl⟩
  | poll answer =>
    unfold Peekable.step at hs
    simp only at hs
    split at hs
    · cases hs
    rename_i asked want htask
    obtain ⟨hpos, hwant⟩ := h.task asked want htask
    split at hs
    · rename_i hlt
      split at hs
      · cases hs
        exact h.quiet rfl rfl rfl h.bounded h.task (by simp) (by simp)
      · cases hs
        exact h.quiet rfl rfl rfl h.bounded (by simp) (by simp) (by simp)
      · split at hs
        · cases hs
        rename_i hread
        obtain ⟨hle, hlen, hbytes, hend⟩ := innerRead_some hread
        split at hs
        · rename_i hzero
          cases hs
          refine h.peekReturn htask (.inr ?_)
          rcases hend hzero with hcap | hnone
          · simp only [chunkLen] at hcap
            omega
          · exact hnone
        · cases hs
          refine h.take hlen hbytes rfl ?_ ?_ h.task (by simp) (by simp)
          · simp only [hpos, drop_zero, append_assoc]
          · rw [length_append, hlen]
            omega
    · cases hs
  | finish =>
    unfold Peekable.step at hs
    simp only at hs
    split at hs
    · cases hs
    rename_i htask
    split at hs
    · rename_i hle
      cases hs
      exact h.peekReturn htask (.inl hle)
    · cases hs
  | drop =>
    cases hs
    exact h.quiet rfl rfl rfl h.bounded (by simp) (by simp) (by simp)
  | read capacity answer =>
    unfold Peekable.step at hs
    simp only [ne_eq, ite_not] at hs
    split at hs
    · rename_i htask
      split at hs
      · cases hs
        exact h.quiet rfl rfl rfl h.bounded h.task (by simp) (by simp)
      · rename_i hcap
        split at hs
        · rename_i hpos
          cases hs
          exact h.replay hpos htask hcap
        · rename_i hpos
          have hnil : s.buf.drop s.pos = [] := drop_eq_nil_of_le (Nat.le_of_not_lt hpos)
          split at hs
          · cases hs
            exact h.quiet rfl rfl rfl h.bounded h.task (by simp) (by simp)
          · cases hs
            exact h.quiet rfl rfl rfl h.bounded h.task (by simp) (by simp)
          · split at hs
            · cases hs
            rename_i hread
            obtain ⟨-, hlen, hbytes, hend⟩ := innerRead_some hread
            cases hs
            refine h.take hlen hbytes rfl ?_ h.bounded h.task (by simp) ?_
            · simp only [hnil, append_nil]
            · intro k hout
              simp only [Output.read.injEq] at hout
              obtain ⟨rfl, rfl⟩ := hout
              have hcount := h.count
              rw [hnil, length_nil, Nat.add_zero] at hcount
              simp only [append_nil, hcount]
              exact hend hlen.symm
    · cases hs

end Peekable.Inv

/-- In every run of peeks, dropped peeks and reads: what has been read is the beginning of the
stream; a peek has returned the next `min want MAX_PEEK` bytes, fewer only at the end, and
consumed none; the buffer stays within `MAX_PEEK`. -/
theorem peekable_is_position (src : Source) {s : Peekable}
    (h : Reachable (Peekable.step src) Peekable.new s) :
    s.delivered = ahead src 0 s.delivered.length ∧
      s.delivered ++ s.buf.drop s.pos = ahead src 0 s.inner ∧
      (∀ want bytes, s.out = .peeked want bytes →
        bytes = ahead src s.delivered.length (min want maxPeek)) ∧
      (∀ capacity, s.out = .read capacity [] →
        capacity = 0 ∨ src s.delivered.length = none) ∧
      s.buf.length ≤ maxPeek := by
  have hinv : s.Inv src := h.invariant .new (fun s a t hs ht => hs.step ht)
  exact ⟨hinv.delivered, hinv.held, hinv.peeked, hinv.read, hinv.bounded⟩

def threeBytes : Source := fun i => ([7, 8, 9] : List UInt8)[i]?

def threeCalls : List Call :=
  [.peek 2, .poll (.bytes 1), .poll .pending, .poll (.bytes 1), .finish, .read 1 .pending,
    .peek 9, .poll .pending, .drop, .peek 9, .poll (.bytes 1), .poll (.bytes 0)]

theorem peekable_is_position_three :
    ∃ s, Reachable (Peekable.step threeBytes) Peekable.new s ∧
      s.delivered = [7] ∧ s.out = .peeked 9 [8, 9] ∧
      [8, 9] = ahead threeBytes s.delivered.length (min 9 maxPeek) := by
  obtain ⟨s, hs, hd, ho⟩ : ∃ s, exec (Peekable.step threeBytes) Peekable.new threeCalls = some s ∧
      s.delivered = [7] ∧ s.out = .peeked 9 [8, 9] := ⟨_, rfl, rfl, rfl⟩
  have hreach := reachable_exec threeCalls (Reachable.start _) hs
  exact ⟨s, hreach, hd, ho, (peekable_is_position threeBytes hreach).2.2.1 9 [8, 9] ho⟩

end Alighieri.Plugin
