import Mathlib.Tactic.Ring
import Alighieri.Lib.Envelope

/-!
# Token-bucket throttling (throttle.rs:1-202)

`f64` fields are exact rationals and instants are seconds. A reservation may take the tokens below
zero and is answered with the time until they are back; policing only takes what is there. A
throttle is a list of distinct references into a heap of buckets.
-/

namespace Alighieri.Throttling
open Envelope List Function

variable {bytes : ℕ}

structure TokenBucket where
  capacity : ℚ
  rate : ℚ
  tokens : ℚ
  last : ℚ
  deriving Repr, DecidableEq

namespace TokenBucket

def new (rate capacity now : ℚ) : TokenBucket := ⟨capacity, rate, capacity, now⟩

def fromRateWindow (bytes : ℕ) (secs now : ℚ) : Option TokenBucket :=
  if bytes = 0 ∨ secs ≤ 0 then none else some (new (bytes / secs) bytes now)

def elapsed (b : TokenBucket) (now : ℚ) : ℚ := max 0 (now - b.last)

def refill (b : TokenBucket) (now : ℚ) : TokenBucket :=
  if b.elapsed now > 0 then
    { b with tokens := min (b.tokens + b.elapsed now * b.rate) b.capacity, last := now }
  else b

def reserve (b : TokenBucket) (bytes : ℕ) (now : ℚ) : ℚ × TokenBucket :=
  let b := b.refill now
  let b := { b with tokens := b.tokens - bytes }
  if b.tokens ≥ 0 ∨ b.rate ≤ 0 then (0, b) else (-b.tokens / b.rate, b)

def has (b : TokenBucket) (bytes : ℕ) (now : ℚ) : Bool × TokenBucket :=
  let b := b.refill now
  (b.tokens ≥ bytes, b)

def take (b : TokenBucket) (bytes : ℕ) : TokenBucket := { b with tokens := b.tokens - bytes }

def updateRateWindow (b : TokenBucket) (bytes : ℕ) (secs now : ℚ) : TokenBucket :=
  if bytes = 0 ∨ secs ≤ 0 then b
  else
    let b := b.refill now
    { b with rate := bytes / secs, capacity := bytes, tokens := min b.tokens bytes }

def isFull (b : TokenBucket) (now : ℚ) : Bool × TokenBucket :=
  let b := b.refill now
  (b.tokens ≥ b.capacity, b)

/- The branch of `Throttle::police` for one bucket. -/
def police (b : TokenBucket) (bytes : ℕ) (now : ℚ) : Bool × TokenBucket :=
  let (enough, b) := b.has bytes now
  if enough then (true, b.take bytes) else (false, b)

end TokenBucket

/- References in the order they were added; `with_bucket` keeps them distinct. -/
structure Throttle where
  buckets : List ℕ
  distinct : buckets.Nodup

abbrev Heap := ℕ → TokenBucket

variable {heap : Heap}

namespace Throttle

def new : Throttle := ⟨[], List.nodup_nil⟩

def withBucket (t : Throttle) (bucket : ℕ) : Throttle :=
  if h : bucket ∈ t.buckets then t
  else ⟨t.buckets ++ [bucket], by
    rw [List.nodup_append]
    refine ⟨t.distinct, by simp, ?_⟩
    intro p hp q hq heq
    rw [List.mem_singleton] at hq
    exact h (by rwa [← hq, ← heq])⟩

/- The loop of `reserve` over the buckets that are left. -/
def reserveAll (bytes : ℕ) (now : ℚ) : List ℕ → ℚ → Heap → ℚ × Heap
  | [], wait, heap => (wait, heap)
  | p :: ps, wait, heap =>
    let (own, b) := (heap p).reserve bytes now
    reserveAll bytes now ps (max wait own) (Function.update heap p b)

def reserve (t : Throttle) (bytes : ℕ) (now : ℚ) (heap : Heap) : ℚ × Heap :=
  reserveAll bytes now t.buckets 0 heap

/- `guards.iter_mut().all(|g| g.has(bytes, now))`: stops at the first bucket that is short. -/
def allHave (bytes : ℕ) (now : ℚ) : List ℕ → Heap → Bool × Heap
  | [], heap => (true, heap)
  | p :: ps, heap =>
    let (enough, b) := (heap p).has bytes now
    if enough then allHave bytes now ps (Function.update heap p b)
    else (false, Function.update heap p b)

def takeAll (bytes : ℕ) : List ℕ → Heap → Heap
  | [], heap => heap
  | p :: ps, heap => takeAll bytes ps (Function.update heap p ((heap p).take bytes))

def police (t : Throttle) (bytes : ℕ) (now : ℚ) (heap : Heap) : Bool × Heap :=
  match t.buckets with
  | [] => (true, heap)
  | [p] =>
    let (forward, b) := (heap p).police bytes now
    (forward, Function.update heap p b)
  | buckets =>
    let ordered := buckets.mergeSort (fun p q => decide (p ≤ q))
    let (enough, heap) := allHave bytes now ordered heap
    if enough then (true, takeAll bytes ordered heap) else (false, heap)

end Throttle

/-! ### One bucket -/

namespace TokenBucket

/- In `peek` the bucket is asked and nothing is taken, because another bucket is short. -/
inductive Call where
  | reserve (bytes : ℕ)
  | police (bytes : ℕ)
  | peek (bytes : ℕ)
  deriving Repr, DecidableEq

variable {calls : List (ℚ × Call)}

/- What a call releases, at once or when the wait it returns has passed. -/
def call (b : TokenBucket) (now : ℚ) : Call → Option (Release ℚ) × TokenBucket
  | .reserve bytes =>
    let (wait, b) := b.reserve bytes now
    (some ⟨bytes, now + wait⟩, b)
  | .police bytes =>
    let (forward, b) := b.police bytes now
    (if forward then some ⟨bytes, now⟩ else none, b)
  | .peek bytes => (none, (b.has bytes now).2)

def run : TokenBucket → List (ℚ × Call) → List (Release ℚ) × TokenBucket
  | b, [] => ([], b)
  | b, (now, c) :: calls =>
    let (r, b) := b.call now c
    let (rs, b) := b.run calls
    (r.toList ++ rs, b)

def Call.reserved : Call → ℕ
  | .reserve bytes => bytes
  | _ => 0

def largestReserved (calls : List (ℚ × Call)) : ℕ :=
  (calls.map fun c => c.2.reserved).foldr max 0

theorem reserved_le_largest : ∀ c ∈ calls, c.2.reserved ≤ largestReserved calls := by
  intro c hc
  induction calls with
  | nil => cases hc
  | cons c' calls ih =>
    have hcons : largestReserved (c' :: calls) = max c'.2.reserved (largestReserved calls) := rfl
    rw [hcons]
    rcases mem_cons.mp hc with rfl | hc
    · exact le_max_left _ _
    · exact (ih hc).trans (le_max_right _ _)

def Within (b : TokenBucket) : Prop := b.tokens ≤ b.capacity

/- How far the tokens given out are ahead of the clock. -/
def level (b : TokenBucket) (now : ℚ) : ℚ := b.rate * now - b.tokens

theorem refill_within {b : TokenBucket} (h : b.Within) (now : ℚ) : (b.refill now).Within := by
  unfold refill
  split
  · exact min_le_right _ _
  · exact h

theorem take_within {b : TokenBucket} (h : b.Within) (bytes : ℕ) : (b.take bytes).Within := by
  have hbytes : (0 : ℚ) ≤ bytes := Nat.cast_nonneg bytes
  unfold Within take at *
  linarith

theorem updateRateWindow_within {b : TokenBucket} (h : b.Within) (bytes : ℕ) (secs now : ℚ) :
    (b.updateRateWindow bytes secs now).Within := by
  unfold updateRateWindow
  split
  · exact h
  · exact min_le_right _ _

@[simp] theorem refill_rate (b : TokenBucket) (now : ℚ) : (b.refill now).rate = b.rate := by
  unfold refill
  split <;> rfl

@[simp] theorem refill_capacity (b : TokenBucket) (now : ℚ) :
    (b.refill now).capacity = b.capacity := by
  unfold refill
  split <;> rfl

theorem le_refill_last (b : TokenBucket) (now : ℚ) : now ≤ (b.refill now).last := by
  unfold refill
  split
  · exact le_rfl
  · rename_i h
    have helapsed : now - b.last ≤ 0 := (le_max_right 0 _).trans (not_lt.mp h)
    linarith

theorem refill_level {b : TokenBucket} {before now : ℚ} (hrate : 0 ≤ b.rate)
    (hlast : before ≤ b.last) (hnow : before ≤ now) :
    b.level before ≤ (b.refill now).level now := by
  have hgap : b.elapsed now ≤ now - before := max_le (by linarith) (by linarith)
  have hgain : b.elapsed now * b.rate ≤ (now - before) * b.rate :=
    mul_le_mul_of_nonneg_right hgap hrate
  have htokens : (b.refill now).tokens ≤ b.tokens + (now - before) * b.rate := by
    unfold refill
    split
    · exact (min_le_left _ _).trans (by linarith)
    · have hpos : 0 ≤ (now - before) * b.rate := mul_nonneg (by linarith) hrate
      linarith
  unfold level
  rw [refill_rate]
  linarith

theorem reserve_snd (b : TokenBucket) (bytes : ℕ) (now : ℚ) :
    (b.reserve bytes now).2 = (b.refill now).take bytes := by
  unfold reserve take
  simp only
  split <;> rfl

theorem reserve_wait {b : TokenBucket} (hrate : 0 < b.rate) (bytes : ℕ) (now : ℚ) :
    ((b.reserve bytes now).1 = 0 ∧ bytes ≤ (b.refill now).tokens) ∨
      b.rate * (b.reserve bytes now).1 = bytes - (b.refill now).tokens := by
  unfold reserve
  simp only
  split
  · rename_i h
    rcases h with h | h
    · exact .inl ⟨rfl, by linarith⟩
    · rw [refill_rate] at h
      exact absurd hrate (not_lt.mpr h)
  · right
    rw [refill_rate, mul_div_cancel₀ _ hrate.ne']
    ring

theorem police_cases (b : TokenBucket) (bytes : ℕ) (now : ℚ) :
    (bytes ≤ (b.refill now).tokens ∧ b.police bytes now = (true, (b.refill now).take bytes)) ∨
      ((b.refill now).tokens < bytes ∧ b.police bytes now = (false, b.refill now)) := by
  by_cases h : (bytes : ℚ) ≤ (b.refill now).tokens
  · refine .inl ⟨h, ?_⟩
    unfold police has
    simp only [ge_iff_le, decide_eq_true h, if_true]
  · refine .inr ⟨not_le.mp h, ?_⟩
    unfold police has
    simp only [ge_iff_le, decide_eq_false h, Bool.false_eq_true, if_false]

/-- The state of one bucket against everything it has released; `before` is the time of
its last call. -/
structure Metered (burst : ℚ) (b : TokenBucket) (before : ℚ) (rs : List (Release ℚ)) : Prop where
  within : b.Within
  seen : before ≤ b.last
  covered : Covered b.rate burst (b.level before) rs

namespace Metered

variable {burst before now : ℚ} {b : TokenBucket} {rs : List (Release ℚ)}

theorem refill (h : Metered burst b before rs) (hrate : 0 ≤ b.rate) (hnow : before ≤ now) :
    Metered burst (b.refill now) now rs where
  within := refill_within h.within now
  seen := le_refill_last b now
  covered := by
    rw [refill_rate]
    exact h.covered.mono (refill_level hrate h.seen hnow)

theorem take (h : Metered burst b now rs) (hrate : 0 ≤ b.rate) {time : ℚ}
    (hreached : b.level now + bytes ≤ b.rate * time)
    (hburst : b.rate * time ≤ burst + b.level now) :
    Metered burst (b.take bytes) now (rs ++ [⟨bytes, time⟩]) where
  within := take_within h.within bytes
  seen := h.seen
  covered := by
    have hbytes : (0 : ℚ) ≤ bytes := Nat.cast_nonneg bytes
    have hlevel : (b.take bytes).level now = b.level now + bytes := by
      unfold level TokenBucket.take
      ring
    rw [hlevel]
    exact h.covered.release hrate hbytes le_rfl hreached (by linarith)

theorem take_now (h : Metered burst b now rs) (hrate : 0 ≤ b.rate) (hcap : b.capacity ≤ burst)
    (hbytes : bytes ≤ b.tokens) : Metered burst (b.take bytes) now (rs ++ [⟨bytes, now⟩]) := by
  have hwithin : b.tokens ≤ b.capacity := h.within
  refine h.take hrate ?_ ?_
  · unfold level
    linarith
  · unfold level
    linarith

theorem call (h : Metered burst b before rs) (hrate : 0 < b.rate) (hnow : before ≤ now)
    (hcap : b.capacity ≤ burst) {c : Call} (hchunk : c.reserved ≤ burst) :
    Metered burst (b.call now c).2 now (rs ++ (b.call now c).1.toList) := by
  have hfilled := h.refill hrate.le hnow
  have hrate' : 0 ≤ (b.refill now).rate := by
    rw [refill_rate]
    exact hrate.le
  have hcap' : (b.refill now).capacity ≤ burst := by rwa [refill_capacity]
  cases c with
  | reserve bytes =>
    show Metered burst (b.reserve bytes now).2 now (rs ++ [⟨bytes, now + (b.reserve bytes now).1⟩])
    rw [reserve_snd]
    rcases reserve_wait hrate bytes now with ⟨hzero, hbytes⟩ | hwait
    · rw [hzero, add_zero]
      exact hfilled.take_now hrate' hcap' hbytes
    · -- the release is when the debt is paid: the level is met exactly
      have hmet : (b.refill now).rate * (now + (b.reserve bytes now).1) =
          (b.refill now).level now + bytes := by
        unfold level
        rw [mul_add, refill_rate, hwait]
        ring
      have hchunk' : (bytes : ℚ) ≤ burst := hchunk
      exact hfilled.take hrate' hmet.ge (by rw [hmet]; linarith)
  | police bytes =>
    rcases police_cases b bytes now with ⟨hbytes, hp⟩ | ⟨-, hp⟩
    · simp only [TokenBucket.call, hp, if_true]
      exact hfilled.take_now hrate' hcap' hbytes
    · simp only [TokenBucket.call, hp, Bool.false_eq_true, if_false, Option.toList_none,
        append_nil]
      exact hfilled
  | peek =>
    simp only [TokenBucket.call, has, Option.toList_none, append_nil]
    exact hfilled

end Metered

theorem call_fixed (b : TokenBucket) (now : ℚ) (c : Call) :
    (b.call now c).2.rate = b.rate ∧ (b.call now c).2.capacity = b.capacity := by
  cases c with
  | reserve bytes =>
    show (b.reserve bytes now).2.rate = b.rate ∧ (b.reserve bytes now).2.capacity = b.capacity
    rw [reserve_snd]
    exact ⟨refill_rate b now, refill_capacity b now⟩
  | police bytes =>
    rcases police_cases b bytes now with ⟨-, hp⟩ | ⟨-, hp⟩ <;>
      simp only [call, hp] <;> exact ⟨refill_rate b now, refill_capacity b now⟩
  | peek => exact ⟨refill_rate b now, refill_capacity b now⟩

theorem Metered.run {burst before : ℚ} {b : TokenBucket} {rs : List (Release ℚ)}
    (calls : List (ℚ × Call)) (h : Metered burst b before rs) (hrate : 0 < b.rate)
    (hcap : b.capacity ≤ burst) (hchunk : ∀ c ∈ calls, (c.2.reserved : ℚ) ≤ burst)
    (hafter : ∀ c ∈ calls, before ≤ c.1) (hsorted : calls.Pairwise fun c c' => c.1 ≤ c'.1) :
    (b.run calls).2.rate = b.rate ∧ (b.run calls).2.capacity = b.capacity ∧
      ∃ after, Metered burst (b.run calls).2 after (rs ++ (b.run calls).1) := by
  induction calls generalizing b before rs with
  | nil =>
    refine ⟨rfl, rfl, before, ?_⟩
    simp only [TokenBucket.run, append_nil]
    exact h
  | cons c calls ih =>
    obtain ⟨now, c⟩ := c
    obtain ⟨hfirst, hrest⟩ := pairwise_cons.mp hsorted
    obtain ⟨hsame, hsame'⟩ := call_fixed b now c
    have hnow := hafter (now, c) (mem_cons_self)
    have hnext := h.call hrate hnow hcap (hchunk (now, c) (mem_cons_self))
    obtain ⟨hr, hc, after, hm⟩ := ih hnext (by rwa [hsame]) (by rwa [hsame'])
      (fun c' hc' => hchunk c' (mem_cons_of_mem _ hc')) hfirst hrest
    refine ⟨hr.trans hsame, hc.trans hsame', after, ?_⟩
    rw [append_assoc] at hm
    exact hm

theorem Metered.of_new {rate capacity created before : ℚ} (burst : ℚ) (h : before ≤ created) :
    Metered burst (new rate capacity created) before [] :=
  ⟨le_refl capacity, h, Covered.nil⟩

theorem exists_before (created : ℚ) (hsorted : calls.Pairwise fun c c' => c.1 ≤ c'.1) :
    ∃ before ≤ created, ∀ c ∈ calls, before ≤ c.1 := by
  cases calls with
  | nil => exact ⟨created, le_rfl, nofun⟩
  | cons c =>
    refine ⟨min created c.1, min_le_left _ _, ?_⟩
    intro c' hc'
    rcases mem_cons.mp hc' with rfl | hc'
    · exact min_le_right _ _
    · exact (min_le_right _ _).trans ((pairwise_cons.mp hsorted).1 c' hc')

end TokenBucket

/-! ### Several buckets -/

namespace Throttle

theorem reserveAll_spec (bytes : ℕ) (now : ℚ) (ps : List ℕ) (hps : ps.Nodup) (wait : ℚ) (heap : Heap) :
    wait ≤ (reserveAll bytes now ps wait heap).1 ∧
      (∀ p ∈ ps, ((heap p).reserve bytes now).1 ≤ (reserveAll bytes now ps wait heap).1) ∧
      ∀ p, (reserveAll bytes now ps wait heap).2 p =
        if p ∈ ps then ((heap p).reserve bytes now).2 else heap p := by
  induction ps generalizing wait heap with
  | nil => exact ⟨le_rfl, nofun, fun p => rfl⟩
  | cons q ps ih =>
    obtain ⟨hq, hps⟩ := nodup_cons.mp hps
    obtain ⟨hwait, howns, hheap⟩ := ih hps (max wait ((heap q).reserve bytes now).1)
      (Function.update heap q ((heap q).reserve bytes now).2)
    rw [reserveAll]
    refine ⟨(le_max_left _ _).trans hwait, ?_, ?_⟩
    · intro p hp
      rcases mem_cons.mp hp with rfl | hmem
      · exact (le_max_right _ _).trans hwait
      · have hother : p ≠ q := fun heq => hq (heq ▸ hmem)
        have hown := howns p hmem
        rwa [update_of_ne hother] at hown
    · intro p
      rw [hheap]
      by_cases hpq : p = q
      · subst hpq
        simp [hq]
      · simp [hpq]

theorem takeAll_spec (bytes : ℕ) (ps : List ℕ) (hps : ps.Nodup) (heap : Heap) (p : ℕ) :
    takeAll bytes ps heap p = if p ∈ ps then (heap p).take bytes else heap p := by
  induction ps generalizing heap with
  | nil => rfl
  | cons q ps ih =>
    obtain ⟨hq, hps⟩ := nodup_cons.mp hps
    rw [takeAll, ih hps]
    by_cases hpq : p = q
    · subst hpq
      simp [hq]
    · simp [hpq]

theorem allHave_spec (bytes : ℕ) (now : ℚ) (ps : List ℕ) (hps : ps.Nodup) (heap : Heap) :
    ((allHave bytes now ps heap).1 = true ∧ (∀ p ∈ ps, bytes ≤ ((heap p).refill now).tokens) ∧
      ∀ p, (allHave bytes now ps heap).2 p = if p ∈ ps then (heap p).refill now else heap p) ∨
    ((allHave bytes now ps heap).1 = false ∧ (∃ p ∈ ps, ((heap p).refill now).tokens < bytes) ∧
      ∀ p, (allHave bytes now ps heap).2 p = heap p ∨
        p ∈ ps ∧ (allHave bytes now ps heap).2 p = (heap p).refill now) := by
  induction ps generalizing heap with
  | nil => exact .inl ⟨rfl, nofun, fun p => rfl⟩
  | cons q ps ih =>
    obtain ⟨hq, hps⟩ := nodup_cons.mp hps
    have hothers : ∀ p ∈ ps, Function.update heap q ((heap q).refill now) p = heap p := by
      intro p hp
      refine update_of_ne ?_ _ _
      rintro rfl
      exact hq hp
    by_cases henough : (bytes : ℚ) ≤ ((heap q).refill now).tokens
    · have hstep : allHave bytes now (q :: ps) heap =
          allHave bytes now ps (Function.update heap q ((heap q).refill now)) := by
        rw [allHave]
        simp only [TokenBucket.has, ge_iff_le, decide_eq_true henough, if_true]
      rw [hstep]
      rcases ih hps (Function.update heap q ((heap q).refill now)) with
        ⟨htrue, hall, hheap⟩ | ⟨hfalse, ⟨p, hp, hshort⟩, hheap⟩
      · refine .inl ⟨htrue, ?_, ?_⟩
        · intro p hp
          rcases mem_cons.mp hp with rfl | hp
          · exact henough
          · rw [← hothers p hp]
            exact hall p hp
        · intro p
          rw [hheap]
          by_cases hpq : p = q
          · subst hpq
            simp [hq]
          · simp [hpq]
      · refine .inr ⟨hfalse, ⟨p, mem_cons_of_mem _ hp, by rwa [hothers p hp] at hshort⟩, ?_⟩
        intro p
        by_cases hpq : p = q
        · subst hpq
          right
          refine ⟨mem_cons_self, ?_⟩
          rcases hheap p with hsame | ⟨hmem, -⟩
          · rw [hsame, update_self]
          · exact absurd hmem hq
        · have hp := hheap p
          rw [update_of_ne hpq] at hp
          rcases hp with hsame | ⟨hmem, hsame⟩
          · exact .inl hsame
          · exact .inr ⟨mem_cons_of_mem _ hmem, hsame⟩
    · have hstep : allHave bytes now (q :: ps) heap =
          (false, Function.update heap q ((heap q).refill now)) := by
        rw [allHave]
        simp only [TokenBucket.has, ge_iff_le, decide_eq_false henough, Bool.false_eq_true, if_false]
      rw [hstep]
      refine .inr ⟨rfl, ⟨q, mem_cons_self, not_le.mp henough⟩, ?_⟩
      intro p
      by_cases hpq : p = q
      · subst hpq
        exact .inr ⟨mem_cons_self, update_self ..⟩
      · exact .inl (update_of_ne hpq ..)

/- A datagram takes its bytes from every bucket of the throttle, or from none of them. -/
structure Forwarded (t : Throttle) (bytes : ℕ) (now : ℚ) (heap heap' : Heap) : Prop where
  enough : ∀ p ∈ t.buckets, bytes ≤ ((heap p).refill now).tokens
  taken : ∀ p ∈ t.buckets, heap' p = ((heap p).refill now).take bytes
  others : ∀ p ∉ t.buckets, heap' p = heap p

structure Dropped (t : Throttle) (bytes : ℕ) (now : ℚ) (heap heap' : Heap) : Prop where
  short : ∃ p ∈ t.buckets, ((heap p).refill now).tokens < bytes
  untaken : ∀ p, heap' p = heap p ∨ p ∈ t.buckets ∧ heap' p = (heap p).refill now

theorem police_sorted (t : Throttle) (bytes : ℕ) (now : ℚ) (heap : Heap) (ps : List ℕ) (hperm : ps.Perm t.buckets)
    (heap' : Heap) (forward : Bool)
    (h : (if (allHave bytes now ps heap).1 then
        (true, takeAll bytes ps (allHave bytes now ps heap).2)
      else (false, (allHave bytes now ps heap).2)) = (forward, heap')) :
    (forward = true ∧ t.Forwarded bytes now heap heap') ∨
      (forward = false ∧ t.Dropped bytes now heap heap') := by
  have hps : ps.Nodup := hperm.nodup_iff.mpr t.distinct
  rcases allHave_spec bytes now ps hps heap with
    ⟨htrue, hall, hheap⟩ | ⟨hfalse, ⟨p, hp, hshort⟩, hheap⟩
  · rw [htrue, if_pos rfl] at h
    cases h
    refine .inl ⟨rfl, fun p hp => hall p (hperm.mem_iff.mpr hp), ?_, ?_⟩
    · intro p hp
      have hmem := hperm.mem_iff.mpr hp
      rw [takeAll_spec bytes ps hps, if_pos hmem, hheap, if_pos hmem]
    · intro p hp
      have hmem : p ∉ ps := fun hmem => hp (hperm.mem_iff.mp hmem)
      rw [takeAll_spec bytes ps hps, if_neg hmem, hheap, if_neg hmem]
  · rw [hfalse] at h
    cases h
    refine .inr ⟨rfl, ⟨p, hperm.mem_iff.mp hp, hshort⟩, ?_⟩
    intro p
    rcases hheap p with hsame | ⟨hmem, hsame⟩
    · exact .inl hsame
    · exact .inr ⟨hperm.mem_iff.mp hmem, hsame⟩

theorem police_all_or_none (t : Throttle) (bytes : ℕ) (now : ℚ) (heap : Heap) :
    ((t.police bytes now heap).1 = true ∧
        t.Forwarded bytes now heap (t.police bytes now heap).2) ∨
      ((t.police bytes now heap).1 = false ∧
        t.Dropped bytes now heap (t.police bytes now heap).2) := by
  unfold police
  split
  · rename_i hnil
    refine .inl ⟨rfl, ?_, ?_, fun p hp => rfl⟩ <;> rw [hnil] <;> nofun
  · rename_i q hone
    have hmem : ∀ p, p ∈ t.buckets ↔ p = q := by
      intro p
      rw [hone, mem_singleton]
    rcases TokenBucket.police_cases (heap q) bytes now with ⟨henough, hp⟩ | ⟨hshort, hp⟩
    · simp only [hp]
      refine .inl ⟨trivial, ?_, ?_, ?_⟩
      · intro p hp
        rwa [(hmem p).mp hp]
      · intro p hp
        rw [(hmem p).mp hp, update_self]
      · intro p hp
        exact update_of_ne (fun heq => hp ((hmem p).mpr heq)) ..
    · simp only [hp]
      refine .inr ⟨trivial, ⟨q, (hmem q).mpr rfl, hshort⟩, ?_⟩
      intro p
      by_cases hpq : p = q
      · subst hpq
        exact .inr ⟨(hmem p).mpr rfl, update_self ..⟩
      · exact .inl (update_of_ne hpq ..)
  · exact police_sorted t bytes now heap _ (mergeSort_perm ..) _ _ rfl

/-! ### Every bucket of a process -/

/- What happens to the buckets: flows use them, and a reload tunes them. -/
inductive Event where
  | reserve (throttle : Throttle) (bytes : ℕ)
  | police (throttle : Throttle) (bytes : ℕ)
  | update (bucket : ℕ) (bytes : ℕ) (secs : ℚ)
  | idle (bucket : ℕ)

def Event.apply (heap : Heap) (now : ℚ) : Event → Heap
  | .reserve throttle bytes => (throttle.reserve bytes now heap).2
  | .police throttle bytes => (throttle.police bytes now heap).2
  | .update p bytes secs => Function.update heap p ((heap p).updateRateWindow bytes secs now)
  | .idle p => Function.update heap p ((heap p).isFull now).2

theorem update_within (h : ∀ p, (heap p).Within) {q : ℕ} {b : TokenBucket} (hb : b.Within) (p : ℕ) :
    (Function.update heap q b p).Within := by
  by_cases hpq : p = q
  · subst hpq
    rwa [update_self]
  · rw [update_of_ne hpq]
    exact h p

theorem Event.apply_within (h : ∀ p, (heap p).Within) (now : ℚ) (e : Event) (p : ℕ) :
    (e.apply heap now p).Within := by
  cases e with
  | reserve throttle bytes =>
    have hspec := (reserveAll_spec bytes now throttle.buckets throttle.distinct 0 heap).2.2 p
    rw [Event.apply, Throttle.reserve, hspec]
    split
    · rw [TokenBucket.reserve_snd]
      exact TokenBucket.take_within (TokenBucket.refill_within (h p) now) bytes
    · exact h p
  | police throttle bytes =>
    rcases police_all_or_none throttle bytes now heap with ⟨-, hforward⟩ | ⟨-, hdrop⟩
    · by_cases hp : p ∈ throttle.buckets
      · rw [Event.apply, hforward.taken p hp]
        exact TokenBucket.take_within (TokenBucket.refill_within (h p) now) bytes
      · rw [Event.apply, hforward.others p hp]
        exact h p
    · rcases hdrop.untaken p with hsame | ⟨-, hsame⟩
      · rw [Event.apply, hsame]
        exact h p
      · rw [Event.apply, hsame]
        exact TokenBucket.refill_within (h p) now
  | update q => exact update_within h (TokenBucket.updateRateWindow_within (h q) ..) p
  | idle q => exact update_within h (TokenBucket.refill_within (h q) now) p

/-- However flows share the buckets and whenever they are tuned, no bucket ever holds more
than its capacity. -/
theorem heap_within (h : ∀ p, (heap p).Within) (events : List (ℚ × Event)) (p : ℕ) :
    (events.foldl (fun heap e => e.2.apply heap e.1) heap p).Within := by
  induction events generalizing heap with
  | nil => exact h p
  | cons e events ih => exact ih fun p => Event.apply_within h e.1 e.2 p

theorem heap_within_retuned :
    ([(1, Event.reserve ⟨[0, 1], by decide⟩ 5), (2, .update 0 3 1)].foldl
      (fun heap e => e.2.apply heap e.1) (fun _ => TokenBucket.new 2 8 0) 0).Within :=
  heap_within (fun _ => le_rfl) _ 0

end Throttle

/-- For calls at times that do not go back: what is released from `s` to `t` is at most the
capacity, or the largest reserved chunk, and what the rate gives; the tokens stay within the
capacity; several buckets are taken from together or not at all. -/
theorem throttle_bounds :
    (∀ (rate capacity created : ℚ) (calls : List (ℚ × TokenBucket.Call)), 0 < rate →
      (calls.Pairwise fun c c' => c.1 ≤ c'.1) →
      (∀ s t, s ≤ t → between s t ((TokenBucket.new rate capacity created).run calls).1 ≤
        max capacity (TokenBucket.largestReserved calls) + rate * (t - s)) ∧
      ((TokenBucket.new rate capacity created).run calls).2.tokens ≤ capacity) ∧
    (∀ (throttle : Throttle) (bytes : ℕ) (now : ℚ) (heap : Heap),
      ((throttle.police bytes now heap).1 = true ∧
          throttle.Forwarded bytes now heap (throttle.police bytes now heap).2) ∨
        ((throttle.police bytes now heap).1 = false ∧
          throttle.Dropped bytes now heap (throttle.police bytes now heap).2)) := by
  refine ⟨?_, Throttle.police_all_or_none⟩
  intro rate capacity created calls hrate hsorted
  obtain ⟨before, hcreated, hafter⟩ := TokenBucket.exists_before created hsorted
  have hchunk : ∀ c ∈ calls,
      (c.2.reserved : ℚ) ≤ max capacity (TokenBucket.largestReserved calls) := by
    intro c hc
    exact (Nat.cast_le.mpr (TokenBucket.reserved_le_largest c hc)).trans (le_max_right _ _)
  obtain ⟨hsame, hcap, after, hmetered⟩ :=
    (TokenBucket.Metered.of_new (max capacity (TokenBucket.largestReserved calls)) hcreated).run
      calls hrate (le_max_left _ _) hchunk hafter hsorted
  refine ⟨fun s t hst => ?_, le_of_le_of_eq hmetered.within hcap⟩
  have hburst : 0 ≤ max capacity (TokenBucket.largestReserved calls : ℚ) :=
    (Nat.cast_nonneg _).trans (le_max_right _ _)
  have hcovered := hmetered.covered
  rw [hsame] at hcovered
  exact hcovered.between_le hrate.le hburst hst

theorem throttle_bounds_queued :
    between 0 1 ((TokenBucket.new 1 2 0).run [(0, .reserve 3), (0, .reserve 1), (1, .police 1)]).1 ≤
      max 2 (TokenBucket.largestReserved [(0, .reserve 3), (0, .reserve 1), (1, .police 1)] : ℚ) +
        1 * (1 - 0) :=
  (throttle_bounds.1 1 2 0 [(0, .reserve 3), (0, .reserve 1), (1, .police 1)] (by norm_num)
    (by simp)).1 0 1 (by norm_num)

end Alighieri.Throttling
