import Alighieri.Config
import Alighieri.Lib.Transition
import Alighieri.Rdp.Steps

/-!
# The frame writer (mux.rs:1163-1246)

`frame_writer` looks at its two queues with three `try_recv` calls, then with a biased `select!`.
Between any two looks the other tasks may send a frame or close a queue, so each look is a step of
its own. A queue that has been closed still gives out what it holds. Writes to the transport
succeed.

`waits` is a ledger beside the ordered queue: for each frame, how many were before it when it
came, and how many control frames have been taken since. `front` counts those taken since the
first of them has been the first.
-/

namespace Alighieri.Rdp
open Function List Option Endpoint

inductive Source where
  | control
  | ordered
  deriving DecidableEq, Repr

variable {s : Source}

/- A receiver's end of a channel. -/
structure Queue (α : Type) where
  waiting : List α
  closed : Bool

inductive Recv (α : Type) where
  | frame (f : α)
  | disconnected
  | empty

def Queue.tryRecv {α : Type} (q : Queue α) : Recv α :=
  match q.waiting with
  | f :: _ => .frame f
  | [] => if q.closed then .disconnected else .empty

/- Where the loop stands. `poll order left` is a `select!` over `order` that has still to look
at `left`. -/
inductive WriterPc (α : Type) where
  | top
  | first
  | second
  | third
  | choose
  | poll (order left : List Source)
  | write (f : α)
  | stopped

structure Wait where
  ahead : ℕ
  passed : ℕ
  deriving DecidableEq, Repr

structure FrameWriter (α : Type) where
  queue : Source → Queue α
  isOpen : Source → Bool
  burst : ℕ
  pc : WriterPc α
  written : List α
  sent : Source → List α
  waits : List Wait
  front : ℕ

inductive WriterAct (α : Type) where
  | send (s : Source) (f : α)
  | close (s : Source)
  | run

namespace FrameWriter

variable {α : Type}

def start : FrameWriter α where
  queue := fun _ => ⟨[], false⟩
  isOpen := fun _ => true
  burst := 0
  pc := .top
  written := []
  sent := fun _ => []
  waits := []
  front := 0

def hand (w : FrameWriter α) : List α :=
  match w.pc with
  | .write f => [f]
  | _ => []

def go (w : FrameWriter α) (pc : WriterPc α) : FrameWriter α := { w with pc := pc }

/- `control_open = false` or `ordered_open = false`. -/
def shut (w : FrameWriter α) (s : Source) : FrameWriter α :=
  { w with isOpen := update w.isOpen s false }

/- A frame leaves its queue; `control_burst` counts those of the control queue. -/
def take (w : FrameWriter α) (s : Source) (f : α) : FrameWriter α :=
  { w with
    queue := update w.queue s ⟨(w.queue s).waiting.tail, (w.queue s).closed⟩
    burst := match s with
      | .control => min (w.burst + 1) maxU64
      | .ordered => 0
    pc := .write f
    waits := match s with
      | .control => w.waits.map fun x => ⟨x.ahead, x.passed + 1⟩
      | .ordered => w.waits.tail
    front := match s with
      | .control => w.front + 1
      | .ordered => 0 }

/- One look at a queue, and where the loop goes if there is nothing or nothing any more. -/
def look (w : FrameWriter α) (s : Source) (empty disconnected : WriterPc α) : FrameWriter α :=
  match (w.queue s).tryRecv with
  | .frame f => w.take s f
  | .disconnected => (w.shut s).go disconnected
  | .empty => w.go empty

/- The branches of the `select!`. -/
def choose (w : FrameWriter α) : WriterPc α :=
  match w.isOpen .control, w.isOpen .ordered with
  | true, true =>
    if sessionControlBurst ≤ w.burst then
      .poll [.ordered, .control] [.ordered, .control]
    else .poll [.control, .ordered] [.control, .ordered]
  | true, false => .poll [.control] [.control]
  | false, true => .poll [.ordered] [.ordered]
  | false, false => .stopped

def run (w : FrameWriter α) : Option (FrameWriter α) :=
  match w.pc with
  | .top => some (w.go (if w.isOpen .control || w.isOpen .ordered then .first else .stopped))
  | .first =>
    if w.isOpen .control && (decide (w.burst < sessionControlBurst) || !w.isOpen .ordered)
    then some (w.look .control .second .second)
    else some (w.go .second)
  | .second => if w.isOpen .ordered then some (w.look .ordered .third .third) else some (w.go .third)
  | .third => if w.isOpen .control then some (w.look .control .choose .choose) else some (w.go .choose)
  | .choose => some (w.go w.choose)
  -- nothing was ready, and some waker has run
  | .poll order [] => some (w.go (.poll order order))
  | .poll order (s :: left) => some (w.look s (.poll order left) .top)
  | .write f => some { w with written := w.written ++ [f], pc := .top }
  | .stopped => none

def send (w : FrameWriter α) (s : Source) (f : α) : FrameWriter α :=
  { w with
    queue := update w.queue s ⟨(w.queue s).waiting ++ [f], (w.queue s).closed⟩
    sent := update w.sent s (w.sent s ++ [f])
    waits := match s with
      | .control => w.waits
      | .ordered => w.waits ++ [⟨(w.queue .ordered).waiting.length, 0⟩]
    front := match s with
      | .control => w.front
      | .ordered => if (w.queue .ordered).waiting.isEmpty then 0 else w.front }

def close (w : FrameWriter α) (s : Source) : FrameWriter α :=
  { w with queue := update w.queue s ⟨(w.queue s).waiting, true⟩ }

/- Any task may send while the queue is open, and the last sender may go. -/
def step (w : FrameWriter α) : WriterAct α → Option (FrameWriter α)
  | .send s f => if (w.queue s).closed then none else some (w.send s f)
  | .close s => some (w.close s)
  | .run => w.run

end FrameWriter

/-! ### Interleavings -/

/-- `w` is made of the elements of `a` and those of `b`, each in their order. -/
inductive Interleaves {α : Type} : List α → List α → List α → Prop where
  | nil : Interleaves [] [] []
  | left {a b w : List α} (h : Interleaves a b w) (x : α) : Interleaves (a ++ [x]) b (w ++ [x])
  | right {a b w : List α} (h : Interleaves a b w) (x : α) : Interleaves a (b ++ [x]) (w ++ [x])

namespace FrameWriter

variable {α : Type} {w : FrameWriter α} {pc : WriterPc α}

/-! ### The invariant -/

/- A control frame may be taken: the burst is not used up, nothing more comes on the ordered
queue, or what waits there came in only after the last look at it. -/
def Steady (w : FrameWriter α) : Prop :=
  w.burst < sessionControlBurst ∨ w.isOpen .ordered = false

def Fair (w : FrameWriter α) : Prop := w.Steady ∨ ∀ x ∈ w.waits, x.passed = 0

def At (w : FrameWriter α) : WriterPc α → Prop
  | .third => w.Fair
  | .poll order left =>
    (order ≠ [] ∧ (∀ s ∈ order, w.isOpen s = true) ∧ ∀ s ∈ left, s ∈ order) ∧
      (order.head? = some .control → w.Steady) ∧ (left.head? = some .control → w.Fair)
  | .stopped => ∀ s, w.isOpen s = false
  | _ => True

structure Inv (w : FrameWriter α) : Prop where
  split : ∃ taken : Source → List α,
    Interleaves (taken .control) (taken .ordered) (w.written ++ w.hand) ∧
      ∀ s, w.sent s = taken s ++ (w.queue s).waiting
  ended : ∀ s, w.isOpen s = false → (w.queue s).waiting = [] ∧ (w.queue s).closed = true
  length : w.waits.length = (w.queue .ordered).waiting.length
  ledger : ∀ i x, w.waits[i]? = some x → i ≤ x.ahead ∧
    x.passed ≤ sessionControlBurst * (x.ahead - i) +
      min w.burst sessionControlBurst
  front : ∀ x, w.waits.head? = some x →
    w.front ≤ x.passed ∧ w.front ≤ min w.burst sessionControlBurst
  at_pc : w.At w.pc

theorem Inv.start : (start : FrameWriter α).Inv where
  split := ⟨fun _ => [], .nil, fun _ => rfl⟩
  ended s h := by cases h
  length := rfl
  ledger i x h := by cases h
  front x h := by cases h
  at_pc := trivial

theorem waits_nil (h : w.Inv) (hq : (w.queue .ordered).waiting = []) : w.waits = [] := by
  have hlen := h.length
  rw [hq] at hlen
  exact eq_nil_of_length_eq_zero hlen

theorem fair_of_empty (h : w.Inv) (hq : (w.queue .ordered).waiting = []) : w.Fair := by
  refine .inr ?_
  rw [waits_nil h hq]
  exact fun x hx => absurd hx not_mem_nil

/-! ### The steps of the loop -/

theorem At.go (h : w.At pc) : (w.go pc).At pc := by
  cases pc with
  | poll | third | stopped => exact h
  | _ => trivial

theorem Inv.go (h : w.Inv) (hhand : w.hand = []) (hpc : (w.go pc).hand = []) (hat : w.At pc) :
    (w.go pc).Inv := by
  refine { h with split := ?_, at_pc := hat.go }
  obtain ⟨taken, hshuffle, hsent⟩ := h.split
  exact ⟨taken, by rwa [hpc, ← hhand], hsent⟩

theorem shut_isOpen_self (w : FrameWriter α) (s : Source) : (w.shut s).isOpen s = false := by
  show update w.isOpen s false s = false
  rw [update_self]

theorem Inv.shut (h : w.Inv) (hhand : w.hand = []) (hq : (w.queue s).waiting = [])
    (hc : (w.queue s).closed = true) (hpc : ((w.shut s).go pc).hand = []) (hat : (w.shut s).At pc) :
    ((w.shut s).go pc).Inv := by
  refine { h with split := ?_, ended := ?_, at_pc := hat.go }
  · obtain ⟨taken, hshuffle, hsent⟩ := h.split
    exact ⟨taken, by rwa [hpc, ← hhand], hsent⟩
  · intro s' hs'
    by_cases he : s' = s
    · rw [he]
      exact ⟨hq, hc⟩
    · have hopen : (w.shut s).isOpen s' = w.isOpen s' := update_of_ne he _ _
      exact h.ended s' (hopen.symm.trans hs')

theorem waiting_update (q : Source → Queue α) (s s' : Source) (v : Queue α) :
    (update q s v s').waiting = if s' = s then v.waiting else (q s').waiting := by
  rw [update_apply, apply_ite Queue.waiting]

theorem closed_update (q : Source → Queue α) (s s' : Source) (fs : List α) :
    (update q s ⟨fs, (q s).closed⟩ s').closed = (q s').closed := by
  by_cases he : s' = s
  · rw [he, update_self]
  · rw [update_of_ne he]

/- The burst has room, or nothing has passed the frame that waits. -/
theorem Inv.fair_cases (h : w.Inv) (hf : w.Fair) {x : Wait} (hx : x ∈ w.waits) :
    w.burst < sessionControlBurst ∨ x.passed = 0 := by
  rcases hf with (hlow | hshut) | hzero
  · exact .inl hlow
  · rw [waits_nil h (h.ended _ hshut).1] at hx
    cases hx
  · exact .inr (hzero x hx)

theorem Inv.take (h : w.Inv) (hhand : w.hand = []) {f : α} {rest : List α}
    (hq : (w.queue s).waiting = f :: rest) (hfair : s = .control → w.Fair) : (w.take s f).Inv := by
  have hqueue : ∀ s', ((w.take s f).queue s').waiting =
      if s' = s then rest else (w.queue s').waiting := by
    intro s'
    show (update w.queue s _ s').waiting = _
    rw [waiting_update, hq]
    rfl
  have hopen : ∀ s', w.isOpen s' = false → s' ≠ s := by
    intro s' hs' he
    have := (h.ended s' hs').1
    rw [he, hq] at this
    cases this
  refine ⟨?_, ?_, ?_, ?_, ?_, trivial⟩
  · obtain ⟨taken, hshuffle, hsent⟩ := h.split
    rw [hhand, append_nil] at hshuffle
    refine ⟨update taken s (taken s ++ [f]), ?_, ?_⟩
    · cases s with
      | control => exact hshuffle.left f
      | ordered => exact hshuffle.right f
    · intro s'
      rw [hqueue]
      by_cases he : s' = s
      · rw [he, update_self, if_pos rfl, append_assoc, singleton_append, ← hq]
        exact hsent s
      · rw [update_of_ne he, if_neg he]
        exact hsent s'
  · intro s' hs'
    have hold := h.ended s' hs'
    rw [hqueue, if_neg (hopen s' hs')]
    exact ⟨hold.1, (closed_update _ s s' _).trans hold.2⟩
  · rw [hqueue]
    cases s with
    | control =>
      rw [if_neg Source.noConfusion]
      show (w.waits.map _).length = _
      rw [length_map]
      exact h.length
    | ordered =>
      rw [if_pos rfl]
      show w.waits.tail.length = _
      rw [length_tail, h.length, hq]
      rfl
  · intro i x hx
    cases s with
    | control =>
      have hx' : (w.waits.map fun x => (⟨x.ahead, x.passed + 1⟩ : Wait))[i]? = some x := hx
      rw [getElem?_map] at hx'
      obtain ⟨y, hy, rfl⟩ := map_eq_some_iff.mp hx'
      obtain ⟨hle, hpassed⟩ := h.ledger i y hy
      refine ⟨hle, ?_⟩
      show y.passed + 1 ≤ sessionControlBurst * (y.ahead - i) +
        min (min (w.burst + 1) maxU64) sessionControlBurst
      have hmax : sessionControlBurst ≤ maxU64 := by decide
      have hburst : 0 < sessionControlBurst := by decide
      rcases h.fair_cases (hfair rfl) (mem_of_getElem? hy) with hlow | hzero <;> omega
    | ordered =>
      have hx' : w.waits.tail[i]? = some x := hx
      rw [getElem?_tail] at hx'
      obtain ⟨hle, hpassed⟩ := h.ledger (i + 1) x hx'
      refine ⟨by omega, ?_⟩
      show x.passed ≤ sessionControlBurst * (x.ahead - i) +
        min 0 sessionControlBurst
      have hmul : sessionControlBurst * (x.ahead - i) =
          sessionControlBurst * (x.ahead - (i + 1)) + sessionControlBurst := by
        rw [← Nat.mul_succ]
        congr 1
        omega
      omega
  · intro x hx
    cases s with
    | control =>
      have hx' : (w.waits.map fun x => (⟨x.ahead, x.passed + 1⟩ : Wait)).head? = some x := hx
      rw [head?_map] at hx'
      obtain ⟨y, hy, rfl⟩ := map_eq_some_iff.mp hx'
      obtain ⟨hpassed, hburst⟩ := h.front y hy
      refine ⟨Nat.succ_le_succ hpassed, ?_⟩
      show w.front + 1 ≤ min (min (w.burst + 1) maxU64) sessionControlBurst
      have hmax : sessionControlBurst ≤ maxU64 := by decide
      have hpos : 0 < sessionControlBurst := by decide
      rcases h.fair_cases (hfair rfl) (mem_of_head? hy) with hlow | hzero <;> omega
    | ordered => exact ⟨Nat.zero_le _, Nat.zero_le _⟩

theorem tryRecv_frame {q : Queue α} {f : α} (h : q.tryRecv = .frame f) :
    ∃ rest, q.waiting = f :: rest := by
  unfold Queue.tryRecv at h
  split at h
  · rename_i rest hq
    cases h
    exact ⟨rest, hq⟩
  · split at h <;> cases h

theorem tryRecv_disconnected {q : Queue α} (h : q.tryRecv = .disconnected) :
    q.waiting = [] ∧ q.closed = true := by
  unfold Queue.tryRecv at h
  split at h
  · cases h
  rename_i hq
  split at h
  · rename_i hc
    exact ⟨hq, hc⟩
  · cases h

theorem tryRecv_empty {q : Queue α} (h : q.tryRecv = .empty) :
    q.waiting = [] ∧ q.closed = false := by
  unfold Queue.tryRecv at h
  split at h
  · cases h
  rename_i hq
  split at h
  · cases h
  · rename_i hc
    exact ⟨hq, by simpa using hc⟩

theorem Inv.look (h : w.Inv) (hhand : w.hand = []) {empty disconnected : WriterPc α}
    (hfair : s = .control → w.Fair) (hempty : (w.go empty).hand = [])
    (hdis : ((w.shut s).go disconnected).hand = [])
    (hat : (w.queue s).waiting = [] → w.At empty ∧ (w.shut s).At disconnected) :
    (w.look s empty disconnected).Inv := by
  unfold FrameWriter.look
  cases hr : (w.queue s).tryRecv with
  | frame f =>
    obtain ⟨rest, hq⟩ := tryRecv_frame hr
    exact h.take hhand hq hfair
  | disconnected =>
    obtain ⟨hq, hc⟩ := tryRecv_disconnected hr
    exact h.shut hhand hq hc hdis (hat hq).2
  | empty => exact h.go hhand hempty (hat (tryRecv_empty hr).1).1

theorem choose_at (w : FrameWriter α) : w.At w.choose ∧ (w.go w.choose).hand = [] := by
  have hboth : ∀ {order : List Source}, (∀ s ∈ order, w.isOpen s = true) → order ≠ [] →
      (order.head? = some .control → w.Steady) → w.At (.poll order order) :=
    fun hopen hne hsteady => ⟨⟨hne, hopen, fun s hs => hs⟩, hsteady, fun hc => .inl (hsteady hc)⟩
  unfold FrameWriter.choose
  split
  · rename_i hc ho
    have hall : ∀ s, w.isOpen s = true := fun s => by cases s <;> assumption
    split
    · exact ⟨hboth (fun s _ => hall s) (cons_ne_nil _ _) (fun h => by cases h), rfl⟩
    · rename_i hlow
      exact ⟨hboth (fun s _ => hall s) (cons_ne_nil _ _)
        (fun _ => .inl (Nat.lt_of_not_le hlow)), rfl⟩
  · rename_i hc ho
    refine ⟨hboth ?_ (cons_ne_nil _ _) (fun _ => .inr ho), rfl⟩
    intro s hs
    rw [mem_singleton.mp hs]
    exact hc
  · rename_i ho
    refine ⟨hboth ?_ (cons_ne_nil _ _) (fun h => by cases h), rfl⟩
    intro s hs
    rw [mem_singleton.mp hs]
    exact ho
  · refine ⟨?_, rfl⟩
    intro s
    cases s <;> assumption

theorem Inv.run {w' : FrameWriter α} (h : w.Inv) (hrun : w.run = some w') : w'.Inv := by
  have hpc := h.at_pc
  unfold FrameWriter.run at hrun
  cases hw : w.pc with
  | top =>
    simp only [hw, some.injEq] at hrun
    have hhand : w.hand = [] := by simp only [hand, hw]
    subst hrun
    split
    · exact h.go hhand rfl trivial
    · rename_i hopen
      simp only [Bool.or_eq_true, not_or, Bool.not_eq_true] at hopen
      refine h.go hhand rfl ?_
      intro s
      cases s with
      | control => exact hopen.1
      | ordered => exact hopen.2
  | first =>
    simp only [hw] at hrun
    have hhand : w.hand = [] := by simp only [hand, hw]
    split at hrun
    · rename_i hcond
      cases hrun
      refine h.look hhand (fun _ => .inl ?_) rfl rfl fun _ => ⟨trivial, trivial⟩
      simp only [Bool.and_eq_true, Bool.or_eq_true, decide_eq_true_eq, Bool.not_eq_true'] at hcond
      exact hcond.2
    · cases hrun
      exact h.go hhand rfl trivial
  | second =>
    simp only [hw] at hrun
    have hhand : w.hand = [] := by simp only [hand, hw]
    split at hrun
    · cases hrun
      refine h.look hhand (fun hs => by cases hs) rfl rfl ?_
      intro hq
      exact ⟨fair_of_empty h hq, .inl (.inr (shut_isOpen_self w .ordered))⟩
    · rename_i hopen
      cases hrun
      exact h.go hhand rfl (.inl (.inr (by simpa using hopen)))
  | third =>
    simp only [hw] at hrun
    rw [hw] at hpc
    have hhand : w.hand = [] := by simp only [hand, hw]
    split at hrun
    · cases hrun
      exact h.look hhand (fun _ => hpc) rfl rfl fun _ => ⟨trivial, trivial⟩
    · cases hrun
      exact h.go hhand rfl trivial
  | choose =>
    simp only [hw, some.injEq] at hrun
    have hhand : w.hand = [] := by simp only [hand, hw]
    subst hrun
    exact h.go hhand w.choose_at.2 w.choose_at.1
  | poll order left =>
    rw [hw] at hpc
    have hhand : w.hand = [] := by simp only [hand, hw]
    cases left with
    | nil =>
      simp only [hw, some.injEq] at hrun
      subst hrun
      exact h.go hhand rfl ⟨⟨hpc.1.1, hpc.1.2.1, fun s hs => hs⟩, hpc.2.1, fun hc => .inl (hpc.2.1 hc)⟩
    | cons s =>
      simp only [hw, some.injEq] at hrun
      subst hrun
      refine h.look hhand ?_ rfl rfl ?_
      · rintro rfl
        exact hpc.2.2 rfl
      · intro hq
        refine ⟨⟨⟨hpc.1.1, hpc.1.2.1, fun s' hs' => hpc.1.2.2 s' (mem_cons_of_mem s hs')⟩,
          hpc.2.1, fun _ => ?_⟩, trivial⟩
        cases s with
        | control => exact hpc.2.2 rfl
        | ordered => exact fair_of_empty h hq
  | write f =>
    simp only [hw, some.injEq] at hrun
    subst hrun
    refine { h with split := ?_, at_pc := trivial }
    obtain ⟨taken, hshuffle, hsent⟩ := h.split
    refine ⟨taken, ?_, hsent⟩
    simp only [hand, hw] at hshuffle ⊢
    rw [append_nil]
    exact hshuffle
  | stopped =>
    simp only [hw] at hrun
    cases hrun

/-! ### The other tasks -/

theorem At.mono {w' : FrameWriter α} (hopen : w'.isOpen = w.isOpen) (hburst : w'.burst = w.burst)
    (hwaits : (∀ x ∈ w.waits, x.passed = 0) → ∀ x ∈ w'.waits, x.passed = 0) (h : w.At pc) :
    w'.At pc := by
  have hsteady : w.Steady → w'.Steady := by
    intro hs
    rw [Steady, hburst, hopen]
    exact hs
  have hfair : w.Fair → w'.Fair := Or.imp hsteady hwaits
  cases pc with
  | third => exact hfair h
  | poll =>
    refine ⟨⟨h.1.1, ?_, h.1.2.2⟩, fun hc => hsteady (h.2.1 hc), fun hc => hfair (h.2.2 hc)⟩
    rw [hopen]
    exact h.1.2.1
  | stopped =>
    intro s
    rw [hopen]
    exact h s
  | _ => trivial

theorem Inv.send (h : w.Inv) (f : α) (hc : (w.queue s).closed = false) : (w.send s f).Inv := by
  have hqueue : ∀ s', ((w.send s f).queue s').waiting =
      if s' = s then (w.queue s).waiting ++ [f] else (w.queue s').waiting := by
    exact fun s' => waiting_update _ s s' _
  refine ⟨?_, ?_, ?_, ?_, ?_, ?_⟩
  · obtain ⟨taken, hshuffle, hsent⟩ := h.split
    refine ⟨taken, hshuffle, ?_⟩
    intro s'
    rw [hqueue]
    show update w.sent s (w.sent s ++ [f]) s' = _
    by_cases he : s' = s
    · rw [he, update_self, if_pos rfl, hsent s, append_assoc]
    · rw [update_of_ne he, if_neg he, hsent s']
  · intro s' hs'
    have hold := h.ended s' hs'
    have hne : s' ≠ s := by
      rintro rfl
      rw [hold.2] at hc
      cases hc
    rw [hqueue, if_neg hne]
    exact ⟨hold.1, (closed_update _ s s' _).trans hold.2⟩
  · rw [hqueue]
    cases s with
    | control => exact h.length
    | ordered =>
      show (w.waits ++ [_]).length = _
      rw [if_pos rfl, length_append, length_append, h.length]
      rfl
  · intro i x hx
    cases s with
    | control => exact h.ledger i x hx
    | ordered =>
      have hx' : (w.waits ++ [⟨(w.queue .ordered).waiting.length, 0⟩])[i]? = some x := hx
      rcases Nat.lt_or_ge i w.waits.length with hi | hi
      · rw [getElem?_append_left hi] at hx'
        exact h.ledger i x hx'
      · have hsome : i < (w.waits ++ [(⟨(w.queue .ordered).waiting.length, 0⟩ : Wait)]).length :=
          (List.getElem?_eq_some_iff.mp hx').1
        rw [length_append, length_singleton] at hsome
        have hi' : i = w.waits.length := by omega
        rw [hi', getElem?_append_right (Nat.le_refl _), Nat.sub_self] at hx'
        cases hx'
        refine ⟨?_, Nat.zero_le _⟩
        rw [hi', h.length]
  · intro x hx
    cases s with
    | control => exact h.front x hx
    | ordered =>
      have hx' : (w.waits ++ [(⟨(w.queue .ordered).waiting.length, 0⟩ : Wait)]).head? = some x := hx
      show (if (w.queue .ordered).waiting.isEmpty then 0 else w.front) ≤ x.passed ∧
        (if (w.queue .ordered).waiting.isEmpty then 0 else w.front) ≤ _
      split
      · exact ⟨Nat.zero_le _, Nat.zero_le _⟩
      · rename_i hne
        cases hwaits : w.waits with
        | nil =>
          have hlen := h.length
          rw [hwaits] at hlen
          exact absurd (isEmpty_iff.mpr (eq_nil_of_length_eq_zero hlen.symm)) hne
        | cons =>
          rw [hwaits] at hx'
          exact h.front x (hwaits ▸ hx')
  · refine At.mono (w := w) rfl rfl ?_ h.at_pc
    intro hzero x hx
    cases s with
    | control => exact hzero x hx
    | ordered =>
      have hx' : x ∈ w.waits ++ [⟨(w.queue .ordered).waiting.length, 0⟩] := hx
      rcases mem_append.mp hx' with hx | hx
      · exact hzero x hx
      · rw [mem_singleton.mp hx]

theorem Inv.close (h : w.Inv) (s : Source) : (w.close s).Inv := by
  have hqueue : ∀ s', ((w.close s).queue s').waiting = (w.queue s').waiting := by
    intro s'
    refine (waiting_update _ s s' _).trans ?_
    split <;> simp_all
  refine ⟨?_, ?_, ?_, h.ledger, h.front, h.at_pc.mono rfl rfl id⟩
  · obtain ⟨taken, hshuffle, hsent⟩ := h.split
    refine ⟨taken, hshuffle, ?_⟩
    intro s'
    rw [hqueue]
    exact hsent s'
  · intro s' hs'
    have hold := h.ended s' hs'
    rw [hqueue]
    refine ⟨hold.1, ?_⟩
    show (update w.queue s _ s').closed = true
    by_cases he : s' = s
    · rw [he, update_self]
    · rw [update_of_ne he]
      exact hold.2
  · rw [hqueue]
    exact h.length

theorem Inv.step {w' : FrameWriter α} {act : WriterAct α} (h : w.Inv) (hs : w.step act = some w') :
    w'.Inv := by
  cases act with
  | send s f =>
    obtain ⟨hc, hs⟩ := ite_none_left_eq_some.mp hs
    cases hs
    exact h.send f (by simpa using hc)
  | close s =>
    cases hs
    exact h.close s
  | run => exact h.run hs

theorem inv_of_reachable (h : Lts.Reachable step start w) : w.Inv :=
  h.invariant Inv.start fun _ _ _ hw hs => hw.step hs

/-! ### The writer comes to an end -/

def rank : WriterPc α → ℕ
  | .write _ => 7
  | .top => 6
  | .first => 5
  | .second => 4
  | .third => 3
  | .choose => 2
  | .poll _ [] => 1
  | .poll _ (_ :: _) => 0
  | .stopped => 0

def work (w : FrameWriter α) : ℕ :=
  8 * ((w.queue .control).waiting.length + (w.queue .ordered).waiting.length +
    (w.isOpen .control).toNat + (w.isOpen .ordered).toNat) + rank w.pc

theorem work_take {f : α} {rest : List α} (hq : (w.queue s).waiting = f :: rest) :
    (w.take s f).work < w.work := by
  have htail : (w.queue s).waiting.tail = rest := by
    rw [hq]
    rfl
  have hopen : (w.take s f).isOpen = w.isOpen := rfl
  have hpc : rank (w.take s f).pc = 7 := rfl
  cases s with
  | control =>
    have hc : ((w.take .control f).queue .control).waiting = rest := htail
    have ho : ((w.take .control f).queue .ordered).waiting = (w.queue .ordered).waiting := rfl
    rw [work, work, hc, ho, hopen, hpc, hq, length_cons]
    omega
  | ordered =>
    have hc : ((w.take .ordered f).queue .control).waiting = (w.queue .control).waiting := rfl
    have ho : ((w.take .ordered f).queue .ordered).waiting = rest := htail
    rw [work, work, hc, ho, hopen, hpc, hq, length_cons]
    omega

theorem work_shut (hopen : w.isOpen s = true) (hpc : rank pc ≤ 6) :
    ((w.shut s).go pc).work < w.work := by
  have hself := shut_isOpen_self w s
  have hwork : ((w.shut s).go pc).work = 8 * ((w.queue .control).waiting.length +
      (w.queue .ordered).waiting.length + ((w.shut s).isOpen .control).toNat +
      ((w.shut s).isOpen .ordered).toNat) + rank pc := rfl
  rw [hwork, work]
  cases s with
  | control =>
    have hother : (w.shut .control).isOpen .ordered = w.isOpen .ordered := rfl
    rw [hself, hother, hopen, Bool.toNat_false, Bool.toNat_true]
    omega
  | ordered =>
    have hother : (w.shut .ordered).isOpen .control = w.isOpen .control := rfl
    rw [hself, hother, hopen, Bool.toNat_false, Bool.toNat_true]
    omega

theorem work_look {empty disconnected : WriterPc α} (hc : (w.queue s).closed = true)
    (hopen : w.isOpen s = true) (hpc : rank disconnected ≤ 6) :
    (w.look s empty disconnected).work < w.work := by
  unfold look
  cases hr : (w.queue s).tryRecv with
  | frame f =>
    obtain ⟨rest, hq⟩ := tryRecv_frame hr
    exact work_take hq
  | disconnected => exact work_shut hopen hpc
  | empty =>
    have := (tryRecv_empty hr).2
    rw [hc] at this
    cases this

theorem work_go (h : rank pc < rank w.pc) : (w.go pc).work < w.work :=
  Nat.add_lt_add_left h _

theorem look_closed (w : FrameWriter α) (s' : Source) (empty disconnected : WriterPc α) (s : Source) :
    ((w.look s' empty disconnected).queue s).closed = (w.queue s).closed := by
  unfold look
  split
  · exact closed_update _ s' s _
  · rfl
  · rfl

theorem work_run (h : w.Inv) (hc : ∀ s, (w.queue s).closed = true) (hpc : w.pc ≠ .stopped) :
    ∃ w', w.run = some w' ∧ w'.work < w.work ∧ ∀ s, (w'.queue s).closed = true := by
  have hat := h.at_pc
  have hlook : ∀ s' pc pc' s, ((w.look s' pc pc').queue s).closed = true := fun s' pc pc' s =>
    (look_closed w s' pc pc' s).trans (hc s)
  unfold run
  cases hw : w.pc with
  | top =>
    refine ⟨_, rfl, work_go ?_, hc⟩
    rw [hw]
    split <;> simp only [rank] <;> omega
  | first =>
    dsimp only
    split
    · rename_i hcond
      simp only [Bool.and_eq_true] at hcond
      exact ⟨_, rfl, work_look (hc _) hcond.1 (by simp only [rank]; omega), hlook _ _ _⟩
    · exact ⟨_, rfl, work_go (by rw [hw]; simp only [rank]; omega), hc⟩
  | second | third =>
    dsimp only
    split
    · rename_i hopen
      exact ⟨_, rfl, work_look (hc _) hopen (by simp only [rank]; omega), hlook _ _ _⟩
    · exact ⟨_, rfl, work_go (by rw [hw]; simp only [rank]; omega), hc⟩
  | choose =>
    refine ⟨_, rfl, work_go ?_, hc⟩
    rw [hw]
    unfold choose
    split
    · split <;> simp only [rank] <;> omega
    all_goals simp only [rank]; omega
  | poll order left =>
    rw [hw] at hat
    cases left with
    | nil =>
      refine ⟨_, rfl, work_go ?_, hc⟩
      rw [hw]
      obtain ⟨s, rest, rfl⟩ := exists_cons_of_ne_nil hat.1.1
      simp only [rank]
      omega
    | cons s =>
      refine ⟨_, rfl, work_look (hc s) ?_ (by simp only [rank]; omega), hlook _ _ _⟩
      exact hat.1.2.1 s (hat.1.2.2 s (mem_cons_self))
  | write f =>
    refine ⟨_, rfl, ?_, hc⟩
    show 8 * _ + 6 < 8 * _ + rank w.pc
    rw [hw]
    simp only [rank]
    omega
  | stopped => exact absurd hw hpc

theorem run_to_end (w : FrameWriter α) (h : w.Inv) (hc : ∀ s, (w.queue s).closed = true) :
    ∃ n w', Lts.exec step w (replicate n .run) = some w' ∧ w'.pc = .stopped := by
  -- every step of the writer leaves less to do
  induction hn : w.work using Nat.strongRecOn generalizing w with
  | ind n ih =>
    by_cases hpc : w.pc = .stopped
    · exact ⟨0, w, rfl, hpc⟩
    · obtain ⟨u, hu, hless, hc'⟩ := work_run h hc hpc
      obtain ⟨k, w', hexec, hstop⟩ := ih u.work (hn ▸ hless) u (h.run hu) hc' rfl
      refine ⟨k + 1, w', ?_, hstop⟩
      rw [replicate_succ]
      show (w.run).bind (fun t => Lts.exec step t _) = some w'
      rw [hu]
      exact hexec

theorem Inv.passed_le (h : w.Inv) {x : Wait} (hx : x ∈ w.waits) :
    x.passed ≤ sessionControlBurst * (x.ahead + 1) := by
  obtain ⟨i, hi, hget⟩ := getElem_of_mem hx
  obtain ⟨hle, hpassed⟩ := h.ledger i x (List.getElem?_eq_some_iff.mpr ⟨hi, hget⟩)
  have hmono : sessionControlBurst * (x.ahead - i) ≤
      sessionControlBurst * x.ahead := Nat.mul_le_mul_left _ (Nat.sub_le _ _)
  rw [Nat.mul_succ]
  omega

theorem Inv.front_le (h : w.Inv) (hne : w.waits ≠ []) : w.front ≤ sessionControlBurst := by
  obtain ⟨x, hx⟩ := isSome_iff_exists.mp (isSome_head?.mpr hne)
  have := (h.front x hx).2
  omega

/-- What the writer has taken is an order-preserving interleaving of the frames sent on its
queues. At most eight control frames pass the first waiting ordered frame, so `8 * (n + 1)` one
with `n` before it. Once both queues are closed the writer stops, having written every frame. -/
theorem writer_interleaves {w : FrameWriter α} (h : Lts.Reachable step start w) :
    (∃ taken : Source → List α,
      Interleaves (taken .control) (taken .ordered) (w.written ++ w.hand) ∧
        ∀ s, w.sent s = taken s ++ (w.queue s).waiting) ∧
    ((w.queue .ordered).waiting ≠ [] → w.front ≤ sessionControlBurst) ∧
    (w.waits.length = (w.queue .ordered).waiting.length ∧
      ∀ x ∈ w.waits, x.passed ≤ sessionControlBurst * (x.ahead + 1)) ∧
    (w.pc = .stopped → Interleaves (w.sent .control) (w.sent .ordered) w.written) ∧
    ((∀ s, (w.queue s).closed = true) →
      ∃ n w', Lts.exec step w (replicate n .run) = some w' ∧ w'.pc = .stopped) := by
  have hinv := inv_of_reachable h
  refine ⟨hinv.split, ?_, ⟨hinv.length, fun x hx => hinv.passed_le hx⟩, ?_, run_to_end w hinv⟩
  · intro hwaiting
    refine hinv.front_le fun hnil => hwaiting ?_
    have hlen := hinv.length
    rw [hnil] at hlen
    exact eq_nil_of_length_eq_zero hlen.symm
  intro hstop
  obtain ⟨taken, hshuffle, hsent⟩ := hinv.split
  have hat := hinv.at_pc
  rw [hstop] at hat
  have hall : ∀ s, w.sent s = taken s := by
    intro s
    rw [hsent s, (hinv.ended s (hat s)).1, append_nil]
  have hhand : w.hand = [] := by simp only [hand, hstop]
  rw [hall, hall]
  rw [hhand, append_nil] at hshuffle
  exact hshuffle

def busyRun : List (WriterAct ℕ) :=
  [.send .ordered 100, .send .ordered 101] ++ (range 9).map (fun n => .send .control n) ++
    replicate 31 .run

theorem writer_passes_second :
    ∃ w : FrameWriter ℕ, Lts.Reachable step start w ∧
      ∃ x ∈ w.waits, sessionControlBurst < x.passed := by
  have hrun : (Lts.exec step start busyRun).map FrameWriter.waits = some [⟨1, 9⟩] := by
    decide +kernel
  obtain ⟨w, hw, hwaits⟩ := map_eq_some_iff.mp hrun
  refine ⟨w, Lts.reachable_exec busyRun (.start _) hw, ⟨1, 9⟩, ?_, by decide⟩
  rw [hwaits]
  exact mem_singleton_self _

theorem writer_interleaves_busy :
    ∃ w : FrameWriter ℕ, Lts.exec step start busyRun = some w ∧ w.waits = [⟨1, 9⟩] ∧
      ∀ x ∈ w.waits, x.passed ≤ sessionControlBurst * (x.ahead + 1) := by
  have hrun : (Lts.exec step start busyRun).map FrameWriter.waits = some [⟨1, 9⟩] := by
    decide +kernel
  obtain ⟨w, hw, hwaits⟩ := map_eq_some_iff.mp hrun
  exact ⟨w, hw, hwaits, (writer_interleaves (Lts.reachable_exec busyRun (.start _) hw)).2.2.1.2⟩

/-! ### The endpoint's writer

An endpoint takes a frame in one step. It has the looks of the loop behind it, and `raced`
when they fell so that a frame which came in meanwhile was not seen. -/

section Endpoint

variable {σ : Type}

structure Mirrors (e : Endpoint σ) (w : FrameWriter Frame) : Prop where
  control : e.control = (w.queue .control).waiting
  ordered : e.ordered = (w.queue .ordered).waiting
  writer : e.writer.toList = w.hand
  burst : min e.burst sessionControlBurst = min w.burst sessionControlBurst

theorem Mirrors.go {e : Endpoint σ} {w w' : FrameWriter Frame} (h : Mirrors e w)
    (hq : w'.queue = w.queue) (hb : w'.burst = w.burst) (hhand : w'.hand = w.hand) :
    Mirrors e w' := by
  refine ⟨?_, ?_, ?_, ?_⟩
  · rw [hq]
    exact h.control
  · rw [hq]
    exact h.ordered
  · rw [hhand]
    exact h.writer
  · rw [hb]
    exact h.burst

theorem Mirrors.take {e : Endpoint σ} {w : FrameWriter Frame} (h : Mirrors e w)
    (hended : e.ended = none) (hhand : w.hand = []) {f : Frame} {rest : List Frame}
    (hq : (w.queue s).waiting = f :: rest) :
    ∃ raced e', e.pick raced = some e' ∧ Mirrors e' (w.take s f) := by
  have hwriter : e.writer = none := by
    have := h.writer
    rw [hhand] at this
    exact toList_eq_nil_iff.mp this
  have hburst := h.burst
  have hlarge : sessionControlBurst ≤ maxU64 := by decide
  cases s with
  | control =>
    have hc : e.control = f :: rest := h.control.trans hq
    refine ⟨!decide (e.burst < sessionControlBurst),
      { e with control := rest, writer := some f, burst := e.burst + 1 }, ?_, ?_⟩
    · unfold pick
      rw [hended, hwriter, hc]
      cases e.ordered with
      | nil => rfl
      | cons => simp
    · refine ⟨?_, ?_, rfl, ?_⟩
      · show rest = (w.queue .control).waiting.tail
        rw [hq]
        rfl
      · exact h.ordered
      · show min (e.burst + 1) _ = min (min (w.burst + 1) maxU64) _
        omega
  | ordered =>
    have ho : e.ordered = f :: rest := h.ordered.trans hq
    refine ⟨decide (e.burst < sessionControlBurst),
      { e with ordered := rest, writer := some f, burst := 0 }, ?_, ?_⟩
    · unfold pick
      rw [hended, hwriter, ho]
      cases e.control with
      | nil => rfl
      | cons => simp
    · refine ⟨h.control, ?_, rfl, rfl⟩
      show rest = (w.queue .ordered).waiting.tail
      rw [hq]
      rfl

/-- A turn of the writer is a step of the endpoint, or none. -/
theorem turn_mirrored {e : Endpoint σ} {w w' : FrameWriter Frame} (h : Mirrors e w)
    (hended : e.ended = none) (hrun : w.run = some w') :
    Mirrors e w' ∨ (∃ raced e', e.pick raced = some e' ∧ Mirrors e' w') ∨
      ∃ f e', e.depart = some (f, e') ∧ w'.written = w.written ++ [f] ∧ Mirrors e' w' := by
  have hlook : ∀ s pc pc', w.hand = [] → (w.go pc).hand = [] → (w.go pc').hand = [] →
      Mirrors e (w.look s pc pc') ∨ ∃ raced e', e.pick raced = some e' ∧
        Mirrors e' (w.look s pc pc') := by
    intro s pc pc' hhand hempty hgone
    unfold look Queue.tryRecv
    cases hq : (w.queue s).waiting with
    | cons => exact .inr (h.take hended hhand hq)
    | nil =>
      cases (w.queue s).closed with
      | true => exact .inl (h.go rfl rfl (hgone.trans hhand.symm))
      | false => exact .inl (h.go rfl rfl (hempty.trans hhand.symm))
  have hgo : ∀ pc, w.hand = [] → (w.go pc).hand = [] → Mirrors e (w.go pc) :=
    fun pc hhand hpc => h.go rfl rfl (hpc.trans hhand.symm)
  unfold FrameWriter.run at hrun
  cases hw : w.pc with
  | write f =>
    simp only [hw, some.injEq] at hrun
    subst hrun
    have hwriter : e.writer = some f := by
      have := h.writer
      simp only [hand, hw] at this
      exact mem_toList.mp (this ▸ mem_singleton_self f)
    refine .inr (.inr ⟨f, { e with writer := none }, ?_, rfl, h.control, h.ordered, rfl,
      h.burst⟩)
    unfold depart
    rw [hended, hwriter]
    rfl
  | stopped =>
    simp only [hw] at hrun
    cases hrun
  | top =>
    have hhand : w.hand = [] := by simp only [hand, hw]
    simp only [hw, some.injEq] at hrun
    subst hrun
    split
    · exact .inl (hgo _ hhand rfl)
    · exact .inl (hgo _ hhand rfl)
  | choose =>
    have hhand : w.hand = [] := by simp only [hand, hw]
    simp only [hw, some.injEq] at hrun
    subst hrun
    exact .inl (hgo _ hhand w.choose_at.2)
  | poll order left =>
    have hhand : w.hand = [] := by simp only [hand, hw]
    cases left with
    | nil =>
      simp only [hw, some.injEq] at hrun
      subst hrun
      exact .inl (hgo _ hhand rfl)
    | cons =>
      simp only [hw, some.injEq] at hrun
      subst hrun
      exact Or.imp_right .inl (hlook _ _ _ hhand rfl rfl)
  | _ =>
    have hhand : w.hand = [] := by simp only [hand, hw]
    simp only [hw] at hrun
    split at hrun
    · cases hrun
      exact Or.imp_right .inl (hlook _ _ _ hhand rfl rfl)
    · cases hrun
      exact .inl (hgo _ hhand rfl)

theorem turn_mirrored_taken :
    ∃ w w' : FrameWriter Frame, Lts.exec step start [.send .control (.ping 7), .run] = some w ∧
      w.run = some w' ∧ w'.hand = [.ping 7] ∧
      ∃ raced e', ({ Endpoint.start with control := [.ping 7] } : Endpoint Unit).pick raced =
        some e' ∧ Mirrors e' w' := by
  obtain ⟨w, w', hw, hw', hhand, hm⟩ : ∃ w w' : FrameWriter Frame,
      Lts.exec step start [.send .control (.ping 7), .run] = some w ∧ w.run = some w' ∧
      w'.hand = [.ping 7] ∧
      Mirrors ({ Endpoint.start with control := [.ping 7] } : Endpoint Unit) w :=
    ⟨_, _, rfl, rfl, rfl, rfl, rfl, rfl, rfl⟩
  refine ⟨w, w', hw, hw', hhand, ?_⟩
  rcases turn_mirrored hm rfl hw' with h | h | ⟨f, e', h, -⟩
  · have hnone := h.writer
    rw [hhand] at hnone
    cases hnone
  · exact h
  · cases h

end Endpoint

end FrameWriter

end Alighieri.Rdp
