import Alighieri.Lib.Transition
import Alighieri.Runtime.Rotation

/-!
# The log queue and its writer thread (runtime.rs:1313-1447, 1614-1646)

A record the bounded queue does not take is counted in an atomic `u64`. The writer thread reports
the count in-band before each record, at each flush and at its end, and counts a record that no
sink took. Every step is one atomic action of one thread; a label holds what each sink answers to
a write. Notes to stderr are left out: one that fails aborts the process. An interrupted write is
tried again by `write_all` and has left nothing behind.
-/

namespace Alighieri.Runtime
open Lts List

inductive LogCommand where
  | record (r : Record)
  | flush
  deriving DecidableEq, Repr

/- What the writer thread reports the count for: a record, a flush, its end. -/
inductive Job where
  | record (r : Record)
  | flush
  | last
  deriving DecidableEq, Repr

/-- Where the writer thread is; at its warning it has the total it has loaded and the real count
at that time. -/
inductive Worker where
  | idle
  | report (job : Job)
  | warn (total begun : ℕ) (job : Job)
  | write (r : Record)
  | lose
  | ended
  deriving DecidableEq, Repr

inductive Line where
  | record (r : Record)
  | report (delta total : ℕ)
  deriving DecidableEq, Repr

/-- `counted` is the number of additions to `dropped`, and `owed` are refused records no one has
counted yet. The rest is history: `done` has what became of each record, `attempt` the last report
with its outcome and the count when it was begun. -/
structure Log where
  capacity : ℕ
  queue : List LogCommand := []
  closed : Bool := false
  owed : ℕ := 0
  dropped : ℕ := 0
  worker : Worker := .idle
  reported : ℕ := 0
  lines : List Line := []
  counted : ℕ := 0
  sent : List Record := []
  refused : List Record := []
  done : List (Record × Bool) := []
  attempt : Option (Bool × ℕ) := none
  deriving DecidableEq, Repr

/- `send` is the drop of an `AsyncLogHandle` up to `try_send`, `count` its
`fetch_add`; the senders are gone only when all of them have counted. -/
inductive LogAct where
  | send (r : Record)
  | count
  | flush
  | close
  | recv
  | load
  | warn (sinks : List Bool)
  | write (sinks : List Bool)
  | lose
  deriving DecidableEq, Repr

/-- `MultiLogWriter::write`: every sink is tried, one that takes the record is enough. -/
def multiWrite (sinks : List Bool) : Bool :=
  sinks.foldl (fun delivered accepted => delivered || accepted) false

def Job.next : Job → Worker
  | .record r => .write r
  | .flush => .idle
  | .last => .ended

namespace Log

def fetchAdd (s : Log) : Log :=
  { s with dropped := (s.dropped + 1) % 2 ^ 64, counted := s.counted + 1 }

def step (s : Log) : LogAct → Option Log
  | .send r =>
    if s.closed then none
    else if r = [] then some s
    else if s.queue.length < s.capacity then
      some { s with queue := s.queue ++ [.record r], sent := s.sent ++ [r] }
    else some { s with owed := s.owed + 1, refused := s.refused ++ [r] }
  | .count => if 0 < s.owed then some { s.fetchAdd with owed := s.owed - 1 } else none
  | .flush =>
    if !s.closed && s.queue.length < s.capacity then
      some { s with queue := s.queue ++ [.flush] }
    else none
  | .close => if s.owed = 0 then some { s with closed := true } else none
  | .recv =>
    match s.worker, s.queue with
    | .idle, .record r :: rest => some { s with queue := rest, worker := .report (.record r) }
    | .idle, .flush :: rest => some { s with queue := rest, worker := .report .flush }
    | .idle, [] => if s.closed then some { s with worker := .report .last } else none
    | _, _ => none
  | .load =>
    match s.worker with
    | .report job =>
      if s.dropped ≤ s.reported then some { s with worker := job.next }
      else some { s with worker := .warn s.dropped s.counted job }
    | _ => none
  | .warn sinks =>
    match s.worker with
    | .warn total begun job =>
      if multiWrite sinks then
        some { s with
          worker := job.next
          reported := total
          lines := s.lines ++ [.report (total - s.reported) total]
          attempt := some (true, begun) }
      else some { s with worker := job.next, attempt := some (false, begun) }
    | _ => none
  | .write sinks =>
    match s.worker with
    | .write r =>
      if multiWrite sinks then
        some { s with
          worker := .idle, lines := s.lines ++ [.record r], done := s.done ++ [(r, true)] }
      else some { s with worker := .lose, done := s.done ++ [(r, false)] }
    | _ => none
  | .lose =>
    match s.worker with
    | .lose => some { s.fetchAdd with worker := .idle }
    | _ => none

end Log

/-! ### Where a record is -/

def LogCommand.records : LogCommand → List Record
  | .record r => [r]
  | .flush => []

def Job.records : Job → List Record
  | .record r => [r]
  | _ => []

def Worker.hand : Worker → List Record
  | .report job | .warn _ _ job => job.records
  | .write r => [r]
  | _ => []

def Worker.losing : Worker → ℕ
  | .lose => 1
  | _ => 0

def Line.records : Line → List Record
  | .record r => [r]
  | .report _ _ => []

def Line.reports : Line → List (ℕ × ℕ)
  | .record _ => []
  | .report delta total => [(delta, total)]

namespace Log

def queued (s : Log) : List Record := s.queue.flatMap LogCommand.records

def accepted (s : Log) : List Record := s.lines.flatMap Line.records

def reports (s : Log) : List (ℕ × ℕ) := s.lines.flatMap Line.reports

structure Inv (s : Log) : Prop where
  order : s.sent = s.done.map Prod.fst ++ (s.worker.hand ++ s.queued)
  accepted : s.accepted = (s.done.filter Prod.snd).map Prod.fst
  tally : s.counted + s.owed + s.worker.losing =
    s.refused.length + (s.done.filter (!·.2)).length
  counter : s.dropped = s.counted % 2 ^ 64
  deltas : (s.reports.map Prod.fst).sum = s.reported
  last : s.reported = ((s.reports.map Prod.snd).getLast?).getD 0
  capped : ∀ report ∈ s.reports, report.2 ≤ s.counted
  warn : ∀ total begun job, s.worker = .warn total begun job →
    s.reported < total ∧ total = begun % 2 ^ 64 ∧ begun ≤ s.counted
  attempt : ∀ begun, s.attempt = some (true, begun) → s.reported = begun % 2 ^ 64

variable {s t : Log} {act : LogAct}

theorem Job.hand_next (job : Job) : job.next.hand = job.records := by
  cases job <;> rfl

theorem Job.losing_next (job : Job) : job.next.losing = 0 := by
  cases job <;> rfl

theorem Job.next_ne_warn (job : Job) (total begun : ℕ) (other : Job) :
    job.next ≠ .warn total begun other := by
  cases job <;> nofun

theorem Inv.start (capacity : ℕ) : Inv { capacity := capacity } := by
  constructor <;> simp [Log.accepted, reports, queued, Worker.hand, Worker.losing]

theorem Inv.fetchAdd (h : s.Inv) {owed : ℕ} {worker : Worker} (hhand : worker.hand = s.worker.hand)
    (hwarn : ∀ total begun job, worker = .warn total begun job → s.worker = worker)
    (htally : owed + worker.losing + 1 = s.owed + s.worker.losing) :
    Inv { s.fetchAdd with owed := owed, worker := worker } := by
  refine ⟨?_, h.accepted, ?_, ?_, h.deltas, h.last, ?_, ?_, h.attempt⟩
  · show s.sent = s.done.map Prod.fst ++ (worker.hand ++ s.queued)
    rw [hhand]
    exact h.order
  · show s.counted + 1 + owed + worker.losing =
      s.refused.length + (s.done.filter (!·.2)).length
    have := h.tally
    omega
  · show (s.dropped + 1) % 2 ^ 64 = (s.counted + 1) % 2 ^ 64
    rw [h.counter]
    omega
  · exact fun report hr => Nat.le_succ_of_le (h.capped report hr)
  · intro total begun job hw
    obtain ⟨hlt, htotal, hle⟩ := h.warn total begun job ((hwarn total begun job hw).trans hw)
    exact ⟨hlt, htotal, Nat.le_succ_of_le hle⟩

theorem Inv.advance (h : s.Inv) {worker : Worker} {rest : List LogCommand}
    (hplace : worker.hand ++ rest.flatMap LogCommand.records = s.worker.hand ++ s.queued)
    (hlosing : worker.losing = s.worker.losing)
    (hwarn : ∀ total begun job, worker = .warn total begun job →
      s.reported < total ∧ total = begun % 2 ^ 64 ∧ begun ≤ s.counted) :
    Inv { s with queue := rest, worker := worker } := by
  refine { h with order := ?_, tally := ?_, warn := hwarn }
  · show s.sent = s.done.map Prod.fst ++ (worker.hand ++ rest.flatMap LogCommand.records)
    rw [hplace]
    exact h.order
  · show s.counted + s.owed + worker.losing = _
    rw [hlosing]
    exact h.tally

theorem Inv.send (h : s.Inv) {r : Record} (hs : s.step (.send r) = some t) : t.Inv := by
  simp only [step] at hs
  split at hs
  · cases hs
  split at hs
  · cases hs
    exact h
  · split at hs
    · cases hs
      refine { h with order := ?_ }
      show s.sent ++ [r] = s.done.map Prod.fst ++ (s.worker.hand ++ queued _)
      simp [h.order, queued, LogCommand.records]
    · cases hs
      refine { h with tally := ?_ }
      have := h.tally
      simp only [length_append, length_singleton]
      omega

theorem Inv.recv (h : s.Inv) (hs : s.step .recv = some t) : t.Inv := by
  simp only [step] at hs
  split at hs
  · rename_i hw hq
    cases hs
    refine h.advance ?_ (by rw [hw]; rfl) nofun
    simp [hw, queued, hq, Worker.hand, Job.records, LogCommand.records]
  · rename_i hw hq
    cases hs
    refine h.advance ?_ (by rw [hw]; rfl) nofun
    simp [hw, queued, hq, Worker.hand, Job.records, LogCommand.records]
  · rename_i hw hq
    split at hs
    · cases hs
      exact h.advance (by rw [hw]; rfl) (by rw [hw]; rfl) nofun
    · cases hs
  · cases hs

theorem Inv.load (h : s.Inv) (hs : s.step .load = some t) : t.Inv := by
  simp only [step] at hs
  split at hs
  · rename_i job hw
    split at hs
    · cases hs
      refine h.advance ?_ ?_ fun _ _ other hn => absurd hn (Job.next_ne_warn job _ _ other)
      · rw [hw, Job.hand_next]
        rfl
      · rw [hw, Job.losing_next]
        rfl
    · rename_i hlt
      cases hs
      refine h.advance (by rw [hw]; rfl) (by rw [hw]; rfl) ?_
      rintro total begun other ⟨⟩
      exact ⟨Nat.lt_of_not_le hlt, h.counter, Nat.le_refl _⟩
  · cases hs

theorem Inv.warned (h : s.Inv) {sinks : List Bool} (hs : s.step (.warn sinks) = some t) : t.Inv := by
  simp only [step] at hs
  split at hs
  · rename_i total begun job hw
    obtain ⟨hlt, htotal, hle⟩ := h.warn total begun job hw
    have hnext : Inv { s with worker := job.next } := by
      refine h.advance ?_ ?_ fun _ _ other hn => absurd hn (Job.next_ne_warn job _ _ other)
      · rw [hw, Job.hand_next]
        rfl
      · rw [hw, Job.losing_next]
        rfl
    split at hs
    · cases hs
      refine { hnext with
        accepted := ?_, deltas := ?_, last := ?_, capped := ?_, warn := ?_, attempt := ?_ }
      · have := h.accepted
        simpa [Log.accepted, Line.records] using this
      · have := h.deltas
        simp only [reports, flatMap_append, flatMap_singleton, Line.reports,
          map_append, sum_append] at this ⊢
        simp only [map_cons, map_nil, sum_singleton]
        omega
      · simp [reports, Line.reports]
      · intro report hr
        simp only [reports, flatMap_append, flatMap_singleton, Line.reports,
          mem_append, mem_singleton] at hr
        rcases hr with hr | rfl
        · exact h.capped report hr
        · exact Nat.le_trans (htotal ▸ Nat.mod_le _ _) hle
      · exact fun _ _ other hn => absurd hn (Job.next_ne_warn job _ _ other)
      · rintro began ⟨⟩
        exact htotal
    · cases hs
      exact { hnext with attempt := by simp }
  · cases hs

theorem Inv.written (h : s.Inv) {sinks : List Bool} (hs : s.step (.write sinks) = some t) :
    t.Inv := by
  simp only [step] at hs
  split at hs
  · rename_i hw
    have horder := h.order
    have htally := h.tally
    rw [hw] at horder htally
    split at hs
    · cases hs
      refine { h with
        order := ?_, accepted := ?_, tally := ?_, deltas := ?_, last := ?_, capped := ?_, warn := ?_ }
      · simpa [Worker.hand, queued] using horder
      · have := h.accepted
        simpa [Log.accepted, Line.records] using this
      · simpa [Worker.losing] using htally
      · simpa [reports, Line.reports] using h.deltas
      · simpa [reports, Line.reports] using h.last
      · simpa [reports, Line.reports] using h.capped
      · nofun
    · cases hs
      refine { h with order := ?_, accepted := ?_, tally := ?_, warn := nofun }
      · simpa [Worker.hand, queued] using horder
      · have := h.accepted
        simpa [Log.accepted] using this
      · simp [Worker.losing] at htally ⊢
        omega
  · cases hs

theorem Inv.step (h : s.Inv) (hs : s.step act = some t) : t.Inv := by
  cases act with
  | send r => exact h.send hs
  | count =>
    simp only [Log.step, Option.ite_none_right_eq_some, Option.some.injEq] at hs
    obtain ⟨hpos, rfl⟩ := hs
    refine h.fetchAdd rfl (fun _ _ _ _ => rfl) ?_
    show s.owed - 1 + s.worker.losing + 1 = s.owed + s.worker.losing
    omega
  | flush =>
    simp only [Log.step, Option.ite_none_right_eq_some, Option.some.injEq] at hs
    obtain ⟨-, rfl⟩ := hs
    refine h.advance ?_ rfl h.warn
    simp [queued, LogCommand.records]
  | close =>
    simp only [Log.step, Option.ite_none_right_eq_some, Option.some.injEq] at hs
    obtain ⟨-, rfl⟩ := hs
    exact { h with }
  | recv => exact h.recv hs
  | load => exact h.load hs
  | warn => exact h.warned hs
  | write => exact h.written hs
  | lose =>
    simp only [Log.step] at hs
    split at hs
    · rename_i hw
      cases hs
      exact h.fetchAdd (by rw [hw]; rfl) nofun (by rw [hw]; rfl)
    · cases hs

end Log

/-- While fewer than `2^64` records are dropped: the queue's records are, in order, those done,
the one in hand and those queued; the counter has the refused and the failed ones; no reported
total exceeds it, the deltas add up to the last total, which is the count where that report
succeeded and no drop was counted since. -/
theorem log_records_accounted (capacity : ℕ) {s : Log}
    (h : Reachable Log.step { capacity := capacity } s) (hmax : s.counted < 2 ^ 64) :
    s.sent = s.done.map Prod.fst ++ (s.worker.hand ++ s.queued) ∧
      s.accepted = (s.done.filter Prod.snd).map Prod.fst ∧
      s.dropped + s.owed + s.worker.losing =
        s.refused.length + (s.done.filter (!·.2)).length ∧
      (∀ report ∈ s.reports, report.2 ≤ s.dropped) ∧
      (s.reports.map Prod.fst).sum = ((s.reports.map Prod.snd).getLast?).getD 0 ∧
      (∀ begun, s.attempt = some (true, begun) → s.counted = begun →
        ((s.reports.map Prod.snd).getLast?).getD 0 = s.dropped) := by
  have hinv : s.Inv := h.invariant (.start capacity) (fun s a t hs ht => hs.step ht)
  have hcount : s.dropped = s.counted := hinv.counter.trans (Nat.mod_eq_of_lt hmax)
  refine ⟨hinv.order, hinv.accepted, ?_, ?_, hinv.deltas.trans hinv.last, ?_⟩
  · rw [hcount]
    exact hinv.tally
  · rw [hcount]
    exact hinv.capped
  · intro begun hlast hsame
    rw [← hinv.last, hinv.attempt begun hlast, hcount, hsame]
    exact Nat.mod_eq_of_lt (hsame ▸ hmax)

def twoRecords : List LogAct :=
  [.send [1], .send [2], .count, .recv, .load, .warn [false, true], .write [true, false]]

theorem log_records_accounted_two :
    ∃ s, Reachable Log.step { capacity := 1 } s ∧ s.sent = [[1]] ∧ s.accepted = [[1]] ∧
      s.reports = [(1, 1)] ∧ s.attempt = some (true, s.counted) ∧
      ((s.reports.map Prod.snd).getLast?).getD 0 = s.dropped := by
  obtain ⟨s, hs, hsent, hacc, hrep, hlast, hcount⟩ : ∃ s,
      exec Log.step { capacity := 1 } twoRecords = some s ∧ s.sent = [[1]] ∧ s.accepted = [[1]] ∧
        s.reports = [(1, 1)] ∧ s.attempt = some (true, s.counted) ∧ s.counted = 1 :=
    ⟨_, rfl, rfl, rfl, rfl, rfl, rfl⟩
  have hreach := reachable_exec twoRecords (Reachable.start _) hs
  have hall := log_records_accounted 1 hreach (by rw [hcount]; decide)
  exact ⟨s, hreach, hsent, hacc, hrep, hlast, hall.2.2.2.2.2 s.counted hlast rfl⟩

def refusing (n : ℕ) : Log where
  capacity := 1
  queue := [.record [1]]
  dropped := n % 2 ^ 64
  counted := n
  sent := [[1]]
  refused := List.replicate n [1]

theorem reachable_refusing (n : ℕ) : Reachable Log.step { capacity := 1 } (refusing n) := by
  induction n with
  | zero => exact (Reachable.start _).next (a := .send [1]) rfl
  | succ n ih =>
    have hsend : (refusing n).step (.send [1]) =
        some { refusing n with owed := 1, refused := List.replicate n [1] ++ [[1]] } := rfl
    refine (ih.next hsend).next (a := .count) ?_
    simp only [Log.step, Log.fetchAdd, refusing, replicate_succ', Nat.mod_add_mod]
    rfl

/-- The counter of `2^64 + 1` dropped records is one, and so is the total that
the next report gives. -/
theorem reported_total_wraps :
    ∃ s, Reachable Log.step { capacity := 1 } s ∧ s.attempt = some (true, s.counted) ∧
      s.counted = 2 ^ 64 + 1 ∧ ((s.reports.map Prod.snd).getLast?).getD 0 = 1 := by
  have hrecv := (reachable_refusing (2 ^ 64 + 1)).next (a := .recv) rfl
  have hload := hrecv.next (a := .load) rfl
  exact ⟨_, hload.next (a := .warn [true]) rfl, rfl, rfl, rfl⟩

end Alighieri.Runtime
