import Alighieri.Relay.Copy
import Alighieri.Relay.Drain

/-!
# When the watchdog ends a relay that still has bytes to write

The activity clock is marked by reads and by the ends of naps, not by the bytes that `write_all`
gets accepted and not while a nap lasts. `Schedule` takes these instants from the labels of a run
alone: what the reader, the writer and the timer answer, and when.
-/

namespace Alighieri.Relay
open Lts

/- A stop by the watchdog leaves nothing unwritten. -/
def Kept (s : Sys) : Prop :=
  s.ending = some .watchdog → ∀ d, s.polled d = true → (s.copy d).holds = false

/-! ### The schedule of a run -/

/- A read that is not an end of file, or the end of a nap. -/
def CopyEvent.renews : CopyEvent → Bool
  | .read n _ => decide (0 < n)
  | .woken => true
  | _ => false

/- The bytes a direction holds after an event, from those before it. -/
def CopyEvent.heldAfter : CopyEvent → ℕ → ℕ
  | .read n _, held => if n = 0 then held else n
  | .accepted k, held => held - k
  | .writeFailed _, _ => 0
  | _, held => held

/- The time, the latest read or end of a nap in either direction, and what each direction has
read and not got accepted. -/
structure Schedule where
  now : ℕ
  renewed : ℕ
  held : Dir → ℕ
  closed : Bool

namespace Schedule

def start : Schedule := ⟨0, 0, fun _ => 0, false⟩

/- A normal close gives up the upload. -/
def next (w : Schedule) : Act → Schedule
  | .advance d => { w with now := w.now + d }
  | .copy d e =>
    { w with
      renewed := if e.renews then w.now else w.renewed
      held := fun d' => if d' = d then e.heldAfter (w.held d) else w.held d' }
  | .select (some (.ok _)) _ =>
    { w with held := fun d => if d = .up then 0 else w.held d, closed := true }
  | .select _ (some (.ok _)) => { w with closed := true }
  | .select _ _ => w

def ofActs (acts : List Act) : Schedule := acts.foldl next start

/- The limit that applies: without an idle timeout there is one after a close only. -/
def limit (cfg : Config) (w : Schedule) : Option ℕ :=
  if w.closed then some (cfg.idle.getD postCloseDrainTimeout) else cfg.idle

end Schedule

/- While a direction holds bytes, the latest read or end of a nap is not as long ago as the
limit. -/
def Schedule.InTime (cfg : Config) (w : Schedule) : Prop :=
  ∀ bound, w.limit cfg = some bound → ∀ d, 0 < w.held d → w.now < w.renewed + bound

/- The schedule is in time at each turn of the select loop. -/
def Prompt (cfg : Config) : Schedule → List Act → Prop
  | _, [] => True
  | w, .select closed recheck :: acts =>
    w.InTime cfg ∧ Prompt cfg (w.next (.select closed recheck)) acts
  | w, a :: acts => Prompt cfg (w.next a) acts

variable {acts : List Act}

theorem Prompt.last {cfg : Config} {w : Schedule} {closed recheck : Option IoResult}
    (h : Prompt cfg w (acts ++ [.select closed recheck])) :
    (acts.foldl Schedule.next w).InTime cfg := by
  induction acts generalizing w with
  | nil => exact h.1
  | cons a acts ih =>
    apply ih
    cases a with
    | advance | copy => exact h
    | select => exact h.2

/-! ### What the relay does in a step -/

variable {cfg : Config} {s s' : Sys} {a : Act} {now : ℕ} {c c' : Copy} {e : CopyEvent}

theorem turn_watchdog_iff (idle : Option ℕ) (l : Loop) (t : Turn) :
    turn idle l t = some .watchdog ↔
      ticked l t = true ∧ ∃ bound, limit idle l = some bound ∧ bound ≤ t.idleFor := by
  have hset : ∀ l' : Loop, settle l' ≠ .watchdog := by
    intro l'
    unfold settle
    split <;> simp
  unfold turn ticked
  cases enabled l.closeSeen t.closed with
  | some r =>
    rcases r with e | u <;> simp [onClosed, hset]
  | none =>
    cases enabled l.upDone t.up with
    | some r =>
      rcases r with e | u
      · rcases t.recheck with _ | (e' | u') <;> simp [onUp, hset]
      · simp [onUp, hset]
    | none =>
      cases enabled l.downDone t.down with
      | some r => rcases r with e | u <;> simp [onDown, hset]
      | none =>
        cases htick : (l.ticker.isSome && t.tick) with
        | false =>
          have hb : l.ticker.isSome = true → t.tick = false := by simpa using htick
          constructor
          · intro h
            simp at h
          · rintro ⟨h, -⟩
            simp at h
            simp [hb h.1] at h
        | true =>
          have hb : l.ticker.isSome = true ∧ t.tick = true := by simpa using htick
          cases hl : limit idle l with
          | none => simp [onTick, hl]
          | some bound =>
            by_cases hi : bound ≤ t.idleFor
            · simp [onTick, hl, hi, hb]
            · simp [onTick, hl, hi]

theorem Sys.step_cases (h : s.step cfg a = some s') :
    s.ending = none ∧
    ((∃ d, a = .advance d ∧ s' = s.advance d) ∨
     (∃ d e c, a = .copy d e ∧ s.polled d = true ∧ (s.copy d).step cfg s.now e = some c ∧
        s' = s.afterCopy d c e) ∨
     (∃ closed recheck out, a = .select closed recheck ∧
        turn cfg.idle s.loop (s.turnOf closed recheck) = some out ∧
        s' = s.afterTurn (s.turnOf closed recheck) out)) := by
  unfold Sys.step at h
  cases hend : s.ending with
  | some e => simp [hend] at h
  | none =>
    refine ⟨rfl, ?_⟩
    cases a with
    | advance d =>
      refine .inl ⟨d, rfl, ?_⟩
      simpa [hend, eq_comm] using h
    | copy d e =>
      have h' : s.polled d = true ∧ ∃ c, (s.copy d).step cfg s.now e = some c ∧
          s.afterCopy d c e = s' := by simpa [hend] using h
      rcases h' with ⟨hp, c, hc, rfl⟩
      exact .inr (.inl ⟨d, e, c, rfl, hp, hc, rfl⟩)
    | select closed recheck =>
      have h' : ∃ out, turn cfg.idle s.loop (s.turnOf closed recheck) = some out ∧
          s.afterTurn (s.turnOf closed recheck) out = s' := by simpa [hend] using h
      rcases h' with ⟨out, hout, rfl⟩
      exact .inr (.inr ⟨closed, recheck, out, rfl, hout, rfl⟩)

/-! ### The schedule follows the relay -/

def Phase.unwritten : Phase → ℕ
  | .napping chunk _ _ => chunk
  | .writing _ left => left
  | _ => 0

theorem shapedWait_unwritten (idle : Option ℕ) (now chunk wait : ℕ) :
    (shapedWait idle now chunk wait).unwritten = chunk := by
  unfold shapedWait
  split <;> rfl

theorem copyDirection_unwritten {p q : Phase} (h : copyDirection cfg now p e = some q) :
    q.unwritten = e.heldAfter p.unwritten := by
  unfold copyDirection at h
  split at h
  · split at h
    · rename_i hn
      cases h
      simp [CopyEvent.heldAfter, hn, Phase.unwritten]
    · rename_i hn
      split at h
      · cases h
        rw [shapedWait_unwritten, CopyEvent.heldAfter, if_neg hn]
      · cases h
  · cases h
    rfl
  · split at h
    · cases h
      exact shapedWait_unwritten _ _ _ _
    · cases h
  · rename_i chunk left k
    split at h
    · rename_i hk
      cases h
      show Phase.unwritten _ = left - k
      split
      · rename_i hall
        rw [hall, Nat.sub_self]
        rfl
      · rfl
    · cases h
  · cases h
    rfl
  · cases h
    rfl
  · cases h

/- A copy that holds a chunk has bytes of it to write. -/
def Copy.Positive (c : Copy) : Prop := c.holds = true → 0 < c.phase.unwritten

theorem shapedWait_positive {idle : Option ℕ} {chunk wait total : ℕ} (h : 0 < chunk) :
    Copy.Positive ⟨shapedWait idle now chunk wait, total⟩ := by
  intro _
  rw [shapedWait_unwritten]
  exact h

theorem Copy.Positive.step (hc : c.Positive) (h : c.step cfg now e = some c') : c'.Positive := by
  obtain ⟨q, hq, rfl⟩ := Option.map_eq_some_iff.mp h
  unfold copyDirection at hq
  split at hq
  · split at hq
    · cases hq
      exact nofun
    · split at hq
      · cases hq
        apply shapedWait_positive
        omega
      · cases hq
  · cases hq
    exact nofun
  · rename_i hphase
    split at hq
    · cases hq
      apply shapedWait_positive
      simpa [Copy.holds, Phase.unwritten, hphase] using hc (by simp [Copy.holds, hphase])
    · cases hq
  · split at hq
    · cases hq
      split
      · exact nofun
      · intro _
        show 0 < Phase.unwritten (.writing _ _)
        simp only [Phase.unwritten]
        omega
    · cases hq
  · cases hq
    exact nofun
  · cases hq
    exact nofun
  · cases hq

/-- The schedule knows the relay's clock, its activity clock and the bytes it holds. -/
structure Tracks (s : Sys) (w : Schedule) : Prop where
  now : s.now = w.now
  last : s.last = w.renewed
  past : s.last ≤ s.now
  held : s.ending = none → ∀ d, s.polled d = true → (s.copy d).phase.unwritten = w.held d
  positive : ∀ d, (s.copy d).Positive
  closed : s.loop.closeSeen = true → w.closed = true
  givenUp : s.loop.closeSeen = true → s.loop.upDone = true

theorem Sys.step_watchdog (h : s.step cfg a = some s') (hend : s'.ending = some .watchdog) :
    ∃ closed recheck bound, a = .select closed recheck ∧
      ticked s.loop (s.turnOf closed recheck) = true ∧
      limit cfg.idle s.loop = some bound ∧ bound ≤ s.now - s.last ∧
      s' = { s with ending := some .watchdog } := by
  rcases Sys.step_cases h with ⟨hrun, ⟨d, -, rfl⟩ | ⟨d, e, c, -, -, hc, rfl⟩ |
    ⟨closed, recheck, out, rfl, hout, rfl⟩⟩
  · unfold Sys.advance at hend
    split at hend <;> simp [hrun] at hend
  · cases d <;> simp [Sys.afterCopy, Sys.setCopy, hrun] at hend
  · cases out with
    | again l => simp [Sys.afterTurn, hrun] at hend
    | finished | failed e => simp [Sys.afterTurn] at hend
    | watchdog =>
      rcases (turn_watchdog_iff _ _ _).mp hout with ⟨ht, bound, hb, hle⟩
      exact ⟨closed, recheck, bound, rfl, ht, hb, hle, rfl⟩

theorem Schedule.next_select (w : Schedule) (closed recheck : Option IoResult) :
    (w.next (.select closed recheck)).now = w.now ∧
      (w.next (.select closed recheck)).renewed = w.renewed ∧
      (w.next (.select closed recheck)).held .down = w.held .down ∧
      (closed ≠ some (.ok ()) → (w.next (.select closed recheck)).held .up = w.held .up) ∧
      (w.closed = true ∨ closed = some (.ok ()) ∨ recheck = some (.ok ()) →
        (w.next (.select closed recheck)).closed = true) := by
  rcases closed with _ | (e | u)
  · rcases recheck with _ | (e' | u') <;> simp [Schedule.next]
  · rcases recheck with _ | (e' | u') <;> simp [Schedule.next]
  · simp [Schedule.next]

variable {w : Schedule}

theorem Tracks.advance (ht : Tracks s w) (d : ℕ) : Tracks (s.advance d) (w.next (.advance d)) := by
  unfold Sys.advance
  split
  all_goals
    exact { ht with now := congrArg (· + d) ht.now, past := Nat.le_add_right_of_le ht.past }

theorem Tracks.afterCopy (ht : Tracks s w) (d : Dir) (hpoll : s.polled d = true)
    (hrun : s.ending = none) (hc : (s.copy d).step cfg s.now e = some c) :
    Tracks (s.afterCopy d c e) (w.next (.copy d e)) := by
  obtain ⟨q, hq, hcq⟩ := Option.map_eq_some_iff.mp hc
  have hheld := copyDirection_unwritten hq
  rw [ht.held hrun d hpoll] at hheld
  have hpos := (ht.positive d).step hc
  have hlast : (if e.marks then s.now else s.last) = if e.renews then w.now else w.renewed := by
    rw [ht.now, ht.last]
    cases e <;> rfl
  have hpast : (if e.marks then s.now else s.last) ≤ s.now := by
    split
    · exact Nat.le_refl _
    · exact ht.past
  have hphase : c.phase = q := by rw [← hcq]
  cases d
  · refine ⟨ht.now, hlast, hpast, ?_, ?_, ht.closed, ht.givenUp⟩
    · rintro - (_ | _) hd
      · show c.phase.unwritten = _
        rw [hphase, hheld]
        rfl
      · exact ht.held hrun .down hd
    · rintro (_ | _)
      · exact hpos
      · exact ht.positive .down
  · refine ⟨ht.now, hlast, hpast, ?_, ?_, ht.closed, ht.givenUp⟩
    · rintro - (_ | _) hd
      · exact ht.held hrun .up hd
      · show c.phase.unwritten = _
        rw [hphase, hheld]
        rfl
    · rintro (_ | _)
      · exact ht.positive .up
      · exact hpos

/- The turn goes round again with the loop's locals `l`. -/
theorem Tracks.again (ht : Tracks s w) (hrun : s.ending = none) {closed recheck : Option IoResult}
    {l : Loop} (h : Relay.step cfg.idle s.loop (s.turnOf closed recheck) = some l) :
    Tracks { s with loop := l, due := s.dueAfter (s.turnOf closed recheck) l }
      (w.next (.select closed recheck)) := by
  obtain ⟨hnow, hrenewed, hdown, hup, hclosed⟩ := w.next_select closed recheck
  have hloop : (l.upDone = false → s.loop.upDone = false ∧ closed ≠ some (.ok ())) ∧
      (l.downDone = false → s.loop.downDone = false) ∧
      (l.closeSeen = true → w.closed = true ∨ closed = some (.ok ()) ∨ recheck = some (.ok ())) ∧
      (l.closeSeen = true → l.upDone = true) := by
    -- a close that was already seen is not polled again, but then the upload is given up
    have hunseen : enabled s.loop.closeSeen closed = none → s.loop.upDone = false →
        closed ≠ some (.ok ()) := by
      intro hnone hup hok
      cases hseen : s.loop.closeSeen with
      | true => rw [ht.givenUp hseen] at hup; cases hup
      | false => rw [hseen, hok] at hnone; cases hnone
    rcases step_cases h with ⟨hc, rfl⟩ | ⟨⟨-, -, hrec⟩, rfl⟩ | ⟨hc, -, rfl | rfl | rfl⟩
    · have hok : closed = some (.ok ()) := by
        rw [enabled_some hc] at hc
        exact hc
      exact ⟨nofun, id, fun _ => .inr (.inl hok), fun _ => rfl⟩
    · exact ⟨nofun, id, fun _ => .inr (.inr hrec), fun _ => rfl⟩
    · exact ⟨nofun, id, fun hseen => .inl (ht.closed hseen), fun _ => rfl⟩
    · exact ⟨fun hu => ⟨hu, hunseen hc hu⟩, nofun, fun hseen => .inl (ht.closed hseen), ht.givenUp⟩
    · exact ⟨fun hu => ⟨hu, hunseen hc hu⟩, id, fun hseen => .inl (ht.closed hseen), ht.givenUp⟩
  obtain ⟨hu, hd, hseen, hgiven⟩ := hloop
  refine ⟨ht.now.trans hnow.symm, ht.last.trans hrenewed.symm, ht.past, ?_, ht.positive,
    fun h => hclosed (hseen h), hgiven⟩
  rintro - (_ | _) hp
  · obtain ⟨hu', hne⟩ := hu (by simpa [Sys.polled] using hp)
    rw [hup hne]
    exact ht.held hrun .up (by simpa [Sys.polled] using hu')
  · rw [hdown]
    exact ht.held hrun .down (by simpa [Sys.polled] using hd (by simpa [Sys.polled] using hp))

theorem Tracks.ended (ht : Tracks s w) (closed recheck : Option IoResult)
    (en : Ending) : Tracks { s with ending := some en } (w.next (.select closed recheck)) := by
  obtain ⟨hnow, hrenewed, -, -, hclosed⟩ := w.next_select closed recheck
  exact ⟨ht.now.trans hnow.symm, ht.last.trans hrenewed.symm, ht.past, nofun, ht.positive,
    fun h => hclosed (.inl (ht.closed h)), ht.givenUp⟩

theorem Tracks.step (ht : Tracks s w) (h : s.step cfg a = some s') :
    Tracks s' (w.next a) := by
  rcases Sys.step_cases h with ⟨hrun, ⟨d, rfl, rfl⟩ | ⟨d, e, c, rfl, hpoll, hc, rfl⟩ |
    ⟨closed, recheck, out, rfl, hout, rfl⟩⟩
  · exact ht.advance d
  · exact ht.afterCopy d hpoll hrun hc
  · cases out with
    | again l =>
      apply ht.again hrun
      rw [Relay.step, hout]
      rfl
    | finished | watchdog | failed => exact ht.ended closed recheck _

theorem Tracks.run (h : exec (Sys.step cfg) (Sys.start cfg) acts = some s) :
    Tracks s (Schedule.ofActs acts) := by
  refine exec_history (P := fun acts s => Tracks s (Schedule.ofActs acts)) ?_ ?_ h
  · refine ⟨rfl, rfl, Nat.le_refl _, ?_, ?_, nofun, nofun⟩
    · rintro - (_ | _) - <;> rfl
    · rintro (_ | _) <;> exact nofun
  · intro acts s a s' ht hs
    rw [Schedule.ofActs, List.foldl_append]
    exact ht.step hs

theorem Tracks.limit_eq (ht : Tracks s w) {bound : ℕ}
    (h : limit cfg.idle s.loop = some bound) : w.limit cfg = some bound := by
  unfold limit at h
  unfold Schedule.limit
  split at h
  · rename_i hseen
    rw [if_pos (ht.closed hseen)]
    exact h
  · split
    · rw [h]
      rfl
    · exact h

theorem kept_of_prompt (h : exec (Sys.step cfg) (Sys.start cfg) acts = some s)
    (hprompt : Prompt cfg .start acts) : Kept s := by
  intro hend d hd
  -- the relay is stopped by its last step, which sees the schedule of the labels before it
  rcases List.eq_nil_or_concat' acts with rfl | ⟨before, a, rfl⟩
  · cases h
    cases hend
  rw [exec_append] at h
  obtain ⟨s₀, h₀, hlast⟩ := Option.bind_eq_some_iff.mp h
  obtain ⟨s₁, hs, hnil⟩ := Option.bind_eq_some_iff.mp hlast
  cases hnil
  rcases Sys.step_watchdog hs hend with ⟨closed, recheck, bound, rfl, -, hlim, hle, rfl⟩
  have ht := Tracks.run h₀
  have hpast := ht.past
  show (s₀.copy d).holds = false
  by_contra hholds
  have hpos : 0 < (Schedule.ofActs before).held d := by
    rw [← ht.held (Sys.step_cases hs).1 d hd]
    exact ht.positive d (by simpa using hholds)
  have hlt : (Schedule.ofActs before).now < (Schedule.ofActs before).renewed + bound :=
    hprompt.last bound (ht.limit_eq hlim) d hpos
  rw [← ht.now, ← ht.last] at hlt
  omega

/- In a prompt run the watchdog stops no relay that has bytes to write. A tick as long as the limit
after the latest read or end of a nap stops the relay, whatever it holds. -/
theorem prompt_runs_are_kept (cfg : Config) (acts : List Act) (s : Sys)
    (h : exec (Sys.step cfg) (Sys.start cfg) acts = some s) :
    (Prompt cfg .start acts → Kept s) ∧
    ∀ closed recheck s', s.step cfg (.select closed recheck) = some s' →
      ticked s.loop (s.turnOf closed recheck) = true →
      ∀ bound, limit cfg.idle s.loop = some bound →
        (Schedule.ofActs acts).renewed + bound ≤ (Schedule.ofActs acts).now →
          s'.ending = some .watchdog := by
  refine ⟨kept_of_prompt h, ?_⟩
  intro closed recheck s' hs htick bound hlim hle
  have ht := Tracks.run h
  rw [← ht.now, ← ht.last] at hle
  have hw := (turn_watchdog_iff cfg.idle s.loop (s.turnOf closed recheck)).mpr
    ⟨htick, bound, hlim, show bound ≤ s.now - s.last by omega⟩
  have hrun := (Sys.step_cases hs).1
  have hs' : some { s with ending := some Ending.watchdog } = some s' := by
    simpa [Sys.step, hrun, hw, Sys.afterTurn] using hs
  cases hs'
  rfl

def plainSecond : Config := ⟨some 1000, false, false⟩

/- A hundred bytes are accepted half a second after they were read, and nothing follows. -/
def promptReader : List Act :=
  [.copy .down (.read 100 0), .select none none,
   .advance 500, .copy .down (.accepted 100), .select none none,
   .advance 500, .select none none]

def slowReader : List Act :=
  [.select none none, .copy .down (.read 100 0),
   .advance 250, .copy .down (.accepted 20), .select none none,
   .advance 250, .copy .down (.accepted 20), .select none none,
   .advance 250, .copy .down (.accepted 20), .select none none]

theorem prompt_runs_are_kept_second :
    (∃ s, exec (Sys.step plainSecond) (Sys.start plainSecond) promptReader = some s ∧
      s.ending = some .watchdog ∧ s.down.total = 100 ∧ Kept s) ∧
    (∃ s s', exec (Sys.step plainSecond) (Sys.start plainSecond) (slowReader ++ [.advance 250]) =
        some s ∧ s.step plainSecond (.select none none) = some s' ∧ s.down.holds = true ∧
      s'.ending = some .watchdog) := by
  constructor
  · obtain ⟨s, hs, hend, htotal⟩ : ∃ s, exec (Sys.step plainSecond) (Sys.start plainSecond)
        promptReader = some s ∧ s.ending = some .watchdog ∧ s.down.total = 100 := by
      refine ⟨_, rfl, ?_⟩
      decide
    refine ⟨s, hs, hend, htotal, (prompt_runs_are_kept _ _ s hs).1 ⟨?_, ?_, ?_, trivial⟩⟩
    · intro bound hb d hd
      cases hb
      decide
    · intro bound hb d hd
      cases d <;> exact absurd hd (by decide)
    · intro bound hb d hd
      cases d <;> exact absurd hd (by decide)
  · obtain ⟨s, s', hs, hs', htick, hlim, hholds⟩ : ∃ s s',
        exec (Sys.step plainSecond) (Sys.start plainSecond) (slowReader ++ [.advance 250]) =
          some s ∧ s.step plainSecond (.select none none) = some s' ∧
        ticked s.loop (s.turnOf none none) = true ∧ limit plainSecond.idle s.loop = some 1000 ∧
        s.down.holds = true := by
      refine ⟨_, _, rfl, rfl, ?_⟩
      decide
    refine ⟨s, s', hs, hs', hholds, ?_⟩
    exact (prompt_runs_are_kept _ _ s hs).2 none none s' hs' htick 1000 hlim (by decide)

/- A quarter of a second after the last bytes moved the watchdog ends the relay with 40 bytes
unwritten. -/
theorem watchdog_cuts_slow_reader :
    ∃ s, Reachable (Sys.step plainSecond) (Sys.start plainSecond) s ∧
      s.ending = some .watchdog ∧ limit plainSecond.idle s.loop = some 1000 ∧ s.stall = 250 ∧
      s.down.phase = .writing 100 40 ∧ ¬Kept s := by
  have hrun : ∃ s, exec (Sys.step plainSecond) (Sys.start plainSecond)
      (slowReader ++ [.advance 250, .select none none]) = some s ∧
      s.ending = some .watchdog ∧ limit plainSecond.idle s.loop = some 1000 ∧ s.stall = 250 ∧
      s.down.phase = .writing 100 40 ∧ s.polled .down = true := by
    refine ⟨_, rfl, ?_⟩
    decide
  rcases hrun with ⟨s, hs, hend, hlim, hstall, hph, hd⟩
  refine ⟨s, reachable_exec _ (Reachable.start _) hs, hend, hlim, hstall, hph, ?_⟩
  intro hk
  have hfree := hk hend .down hd
  simp [Sys.copy, Copy.holds, hph] at hfree

end Alighieri.Relay
