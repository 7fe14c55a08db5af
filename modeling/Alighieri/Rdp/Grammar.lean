import Alighieri.Rdp.SideSound

/-!
# What a stream says on the ordered queue (mux.rs:625-647, 964-1149)

Three tasks queue frames for an open stream: its two workers and the driver. The word they write
is read by an automaton whose stage can be told from the stream. A frame in the hand of a task
counts as written, since the gate keeps the others from writing before it.
-/

namespace Alighieri.Rdp
open Net Lts List Rdp.Frame Await

variable {known q sh : Bool} {reason : CloseReason} {await : Await} {r : ClientHandled}
  {inp new out : List Frame} {caps : Caps} {s s' : Stream} {closes' maxData window : ℕ} {f : Frame}

inductive Stage where
  | flowing
  | shut
  | closed
  deriving DecidableEq, Repr

/- DATA of one to `maxData` bytes and WINDOW_UPDATE flow; after SHUTDOWN_WRITE only
WINDOW_UPDATE does; nothing follows CLOSE. -/
def Stage.next (maxData : ℕ) : Stage → Frame → Option Stage
  | .flowing, .data _ payload =>
    if 1 ≤ payload.length ∧ payload.length ≤ maxData then some .flowing else none
  | .flowing, .windowUpdate _ _ => some .flowing
  | .flowing, .shutdownWrite _ => some .shut
  | .flowing, .close _ _ => some .closed
  | .shut, .windowUpdate _ _ => some .shut
  | .shut, .close _ _ => some .closed
  | _, _ => none

def Follows (maxData : ℕ) (word : List Frame) : Prop :=
  (exec (Stage.next maxData) .flowing word).isSome = true

instance (maxData : ℕ) (word : List Frame) : Decidable (Follows maxData word) :=
  inferInstanceAs (Decidable (_ = true))

def Frame.setsUp : Frame → Bool
  | .resolve _ _ _ | .resolveOk _ _ | .openTo _ _ | .openOk _ _ | .openError _ _ _ => true
  | _ => false

def Frame.isClose : Frame → Bool
  | .close _ _ => true
  | _ => false

namespace Stream

def stage (s : Stream) : Stage :=
  bif s.closeQueued then .closed else bif s.hasShut then .shut else .flowing

/- Two streams whose workers stand at one place and that have committed the same. -/
structure Alike (s s' : Stream) : Prop where
  outPc : s'.outPc = s.outPc
  creditPc : s'.creditPc = s.creditPc
  closeQueued : s'.closeQueued = s.closeQueued
  shutdownSent : s'.shutdownSent = s.shutdownSent

theorem Alike.hand (h : Alike s s') (id : ℕ) : s'.hand id = s.hand id := by
  simp only [Stream.hand, h.outPc, h.creditPc]

theorem Alike.stage (h : Alike s s') : s'.stage = s.stage := by
  simp only [Stream.stage, hasShut, h.outPc, h.closeQueued, h.shutdownSent]

theorem Alike.over (h : Alike s s') (ho : s.Over) : s'.Over :=
  ⟨h.closeQueued.trans ho.1, h.outPc ▸ ho.2⟩

theorem hand_of_free (id : ℕ) (ho : s.outPc.holdsGate = false)
    (hc : s.creditPc.holdsGates = false) : s.hand id = [] := by
  have hout : s.outPc.hand id = [] := by cases hat : s.outPc <;> simp_all
  have hcredit : s.creditPc.hand id = [] := by cases hat : s.creditPc <;> simp_all
  rw [hand, hout, hcredit, append_nil]

theorem Over.hand (hs : s.Sound maxData window) (ho : s.Over) (id : ℕ) : s.hand id = [] := by
  have hout : s.outPc.hand id = [] := by
    have hg := ho.2
    cases hat : s.outPc <;> simp_all
  have hcredit : s.creditPc.hand id = [] := by
    cases hat : s.creditPc with
    | publish credit =>
      have := (hs.publishes credit hat).2
      rw [ho.1] at this
      cases this
    | _ => rfl
  rw [Stream.hand, hout, hcredit, append_nil]

theorem Commit.stage {id : ℕ} (hs : s.Sound maxData window)
    (h : Commit maxData id s new s'.closeQueued s'.hasShut) :
    exec (Stage.next maxData) s.stage new = some s'.stage := by
  generalize hq' : s'.closeQueued = q at h
  generalize hsh' : s'.hasShut = sh at h
  have hto : s'.stage = bif q then .closed else bif sh then .shut else .flowing := by
    simp only [Stream.stage, hq', hsh']
  rw [hto]
  cases h with
  | nothing => rfl
  | data payload hp hle hl hs' =>
    have hopen := hs.open_of_alive hl
    have hlen : 1 ≤ payload.length := length_pos_of_ne_nil hp
    simp [exec, Stream.stage, Stage.next, hopen, hs', hlen, hle]
  | shutdown hl hs' =>
    have hopen := hs.open_of_alive hl
    simp [exec, Stream.stage, Stage.next, hopen, hs']
  | credit credit hc hl =>
    have hopen := hs.open_of_alive hl
    cases hsh : s.hasShut <;> simp [exec, Stream.stage, Stage.next, hopen, hsh]
  | close reason hd hopen =>
    cases hsh : s.hasShut <;> simp [exec, Stream.stage, Stage.next, hopen, hsh]

theorem Commit.nil_of_closed {id : ℕ} (hs : s.Sound maxData window) (hq : s.closeQueued = true)
    (h : Commit maxData id s new q sh) : new = [] := by
  have hdead := hs.closed hq
  cases h with
  | nothing => rfl
  | data payload hp hle hl | shutdown hl | credit credit hc hl => rw [hdead] at hl; cases hl
  | close reason hd hopen => rw [hq] at hopen; cases hopen

theorem Commit.stays_closed {id : ℕ} (hq : s.closeQueued = true)
    (h : Commit maxData id s new q sh) : q = true := by
  cases h <;> first | exact hq | rfl

end Stream

/- How the frames of a stream, those in hand included, are read: what set it up, the
word of the open stream, and the acknowledgements of late CLOSEs. -/
structure Spelling {σ : Type} (maxData id : ℕ) (late : Bool) (x : Side σ) (s : Stream)
    (said : List Frame) (closes : ℕ) (setup word acks : List Frame) : Prop where
  split : said ++ s.hand id ++ x.await.hand = setup ++ word ++ acks
  sets : ∀ f ∈ setup, f.setsUp = true
  reads : exec (Stage.next maxData) .flowing word = some s.stage
  acked : ∀ f ∈ acks, f = .close id .normal
  after : acks ≠ [] → late = true ∧ s.closeQueued = true ∧ x.state = none
  fewer : x.state = none → acks.length < closes

/- A stream that is not open any more has said CLOSE, or its driver is about to. -/
structure Side.Poised {σ : Type} [StreamState σ] (id : ℕ) (x : Side σ) : Prop where
  ceased : ∀ s, x.stream = some s → (∀ st, x.state = some st → StreamState.opened st = false) →
    s.Over ∨ (∃ reason, x.await = .closeGate id reason) ∨ ∃ reason, x.await = .closeSend id reason
  sending : ∀ f next s, x.await = .ordered f next → x.stream = some s → s.Over

/-- What an end has said about a stream. `late` says whether this end acknowledges a
CLOSE for a stream it has retired, `closes` counts the CLOSEs it has handled. -/
structure Side.Spoken {σ : Type} [StreamState σ] (maxData id : ℕ) (late : Bool) (x : Side σ)
    (said : List Frame) (closes : ℕ) : Prop extends x.Poised id where
  fresh : x.known = false → said = []
  setting : (∃ st, x.state = some st ∧ StreamState.setting st = true) ∨ x.await.next.inserts ≠ none →
    ∀ f ∈ said ++ x.await.hand, f.setsUp = true
  spelled : ∀ s, x.stream = some s →
    ∃ setup word acks, Spelling maxData id late x s said closes setup word acks

theorem Side.Sound.not_setting {σ : Type} [StreamState σ] {limits : NegotiatedLimits} {id : ℕ}
    {x : Side σ} (hx : x.Sound limits id) (hs : x.stream = some s) (st : σ)
    (hst : x.state = some st) : StreamState.setting st = false := by
  by_contra hset
  rw [hx.early st hst (StreamState.early_of_setting st (by simpa using hset))] at hs
  cases hs

/- The driver sends its CLOSE with no other frame of the stream in hand. -/
theorem Side.Sound.sends_alone {σ : Type} [StreamState σ] {limits : NegotiatedLimits} {id : ℕ}
    {x : Side σ} (hx : x.Sound limits id) (ha : x.await = .closeSend id reason)
    (hs : x.stream = some s) :
    s.closeQueued = true ∧ s.outPc.holdsGate = false ∧ s.hand id = [] := by
  have hsound := hx.stream s hs
  have hdg := ((hx.held hs).send id reason ha).2
  obtain ⟨hcr, hq, -⟩ := hsound.driver_gate hdg
  have hout : s.outPc.holdsGate = false := by
    by_contra ho
    rw [(hsound.gates (by simpa using ho)).2] at hdg
    cases hdg
  exact ⟨hq, hout, Stream.hand_of_free id hout hcr⟩

namespace Side.Spoken

variable {σ : Type} [StreamState σ] {limits : NegotiatedLimits} {id : ℕ} {late : Bool}
  {x x' : Side σ} {said : List Frame} {closes : ℕ}

theorem of_some (hs : x.stream = some s) (hfresh : x.known = false → said = [])
    (hset : ∀ st, x.state = some st → StreamState.setting st = false)
    (hins : x.await.next.inserts = none)
    (hceased : (∀ st, x.state = some st → StreamState.opened st = false) → s.Over ∨
      (∃ reason, x.await = .closeGate id reason) ∨ ∃ reason, x.await = .closeSend id reason)
    (hsending : ∀ f next, x.await = .ordered f next → s.Over)
    (hspelled : ∃ setup word acks, Spelling limits.maxData id late x s said closes setup word acks) :
    x.Spoken limits.maxData id late said closes := by
  have hone : ∀ {t}, x.stream = some t → s = t := fun ht => Option.some.inj (hs.symm.trans ht)
  refine ⟨⟨?_, ?_⟩, hfresh, ?_, ?_⟩
  · intro t ht
    exact hone ht ▸ hceased
  · intro f next t ha ht
    exact hone ht ▸ hsending f next ha
  · rintro (⟨st, hst, hyes⟩ | hp)
    · rw [hset st hst] at hyes
      cases hyes
    · exact absurd hins hp
  · intro t ht
    exact hone ht ▸ hspelled

section
variable (h : x.Spoken limits.maxData id late said closes)
include h

theorem stays_fresh (hk : x.known = true → known = true) (hf : known = false) : said = [] := by
  apply h.fresh
  by_contra hkn
  rw [hk (by simpa using hkn)] at hf
  cases hf

theorem pass {events : List WorkerEvent} {ended : Bool} (hk : x.known = true → known = true) :
    Side.Spoken limits.maxData id late { x with events := events, known := known, ended := ended }
      said closes := by
  refine ⟨⟨h.ceased, h.sending⟩, h.stays_fresh hk, h.setting, fun s hs => ?_⟩
  obtain ⟨setup, word, acks, hsp⟩ := h.spelled s hs
  exact ⟨setup, word, acks, { hsp with }⟩

theorem setStream (hs : x.stream = some s) (ha : s.Alike s') :
    Side.Spoken limits.maxData id late { x with stream := some s' } said closes := by
  refine ⟨⟨?_, ?_⟩, h.fresh, h.setting, ?_⟩
  · intro t ht hno
    cases ht
    rcases h.ceased s hs hno with ho | hgate
    · exact .inl (ha.over ho)
    · exact .inr hgate
  · intro f next t hat ht
    cases ht
    exact ha.over (h.sending f next s hat hs)
  · intro t ht
    cases ht
    obtain ⟨setup, word, acks, hsp⟩ := h.spelled s hs
    refine ⟨setup, word, acks, { hsp with split := ?_, reads := ?_, after := ?_ }⟩
    · rw [ha.hand]
      exact hsp.split
    · rw [ha.stage]
      exact hsp.reads
    · rw [ha.closeQueued]
      exact hsp.after

theorem act (hx : x.Sound limits id) {eff : Effect} {a : StreamAct} (hs : x.stream = some s)
    (hrun : x.ended = false ∨ a.isWorker = false)
    (hstep : s.step limits.maxData id a = some (s', eff)) :
    Side.Spoken limits.maxData id late
      { x with stream := some s', events := x.events ++ eff.events } (said ++ eff.frames) closes := by
  have hsound := hx.stream s hs
  obtain ⟨new, hm⟩ := hsound.step_moved (hx.retired_of hs hrun) hstep
  refine .of_some rfl (fun hno => nomatch (hx.known_of_stream hs).symm.trans hno)
    (hx.not_setting hs) ?_ ?_ ?_ ?_
  · by_contra hp
    exact nomatch hs.symm.trans (hx.pending hp).2
  · intro hno
    rcases h.ceased s hs hno with ho | hgate
    · exact .inl (ho.step hsound hstep)
    · exact .inr hgate
  · intro f next ha
    exact (h.sending f next s ha hs).step hsound hstep
  · obtain ⟨setup, word, acks, hsp⟩ := h.spelled s hs
    -- while the driver has a frame in hand the CLOSE has been committed
    have hquiet : x.await.hand ≠ [] ∨ acks ≠ [] → new = [] := by
      intro hbusy
      apply Stream.Commit.nil_of_closed hsound ?_ hm.commit
      rcases hbusy with hhand | hacks
      · cases ha : x.await with
        | ordered f next => exact (h.sending f next s ha hs).1
        | closeSend i reason =>
          have hdg := ((hx.held hs).send i reason ha).2
          exact (hsound.driver_gate hdg).2.1
        | _ => exact absurd (by rw [ha]; rfl) hhand
      · exact (hsp.after hacks).2.1
    refine ⟨setup, word ++ new, acks, ?_, hsp.sets, ?_, hsp.acked, ?_, hsp.fewer⟩
    · have hsaid : said ++ eff.frames ++ s'.hand id = said ++ s.hand id ++ new := by
        rw [append_assoc, hm.hand, append_assoc]
      show said ++ eff.frames ++ s'.hand id ++ x.await.hand = setup ++ (word ++ new) ++ acks
      rw [hsaid]
      by_cases hnew : new = []
      · rw [hnew, append_nil, append_nil]
        exact hsp.split
      · have hfree : x.await.hand = [] ∧ acks = [] := by
          constructor <;> by_contra hne
          · exact hnew (hquiet (.inl hne))
          · exact hnew (hquiet (.inr hne))
        have hsplit := hsp.split
        rw [hfree.1, hfree.2, append_nil, append_nil] at hsplit
        rw [hfree.1, hfree.2, append_nil, append_nil, hsplit, append_assoc]
    · exact exec_trans hsp.reads (hm.commit.stage hsound)
    · intro hacks
      obtain ⟨hlate, hq, hnone⟩ := hsp.after hacks
      exact ⟨hlate, hm.commit.stays_closed hq, hnone⟩

theorem sent (hx : x.Sound limits id) {next : Next} (ha : x.await = .ordered f next) :
    Side.Spoken limits.maxData id late { x with await := .idle } (said ++ [f]) closes := by
  have hhand : x.await.hand = [f] := by rw [ha]; rfl
  have hknown := hx.known_of_busy (by simp [ha])
  refine ⟨⟨fun s hs _ => .inl (h.sending f next s ha hs), fun _ _ _ he => nomatch he⟩,
    fun hno => (nomatch hknown.symm.trans hno), ?_, ?_⟩
  · rintro (hst | hp)
    · have hset := h.setting (.inl hst)
      rw [hhand] at hset
      simpa [hand] using hset
    · exact absurd rfl hp
  · intro s hs
    obtain ⟨setup, word, acks, hsp⟩ := h.spelled s hs
    have hnone := (h.sending f next s ha hs).hand (hx.stream s hs) id
    refine ⟨setup, word, acks, { hsp with split := ?_ }⟩
    have hsplit := hsp.split
    rw [hnone, hhand, append_nil] at hsplit
    show said ++ [f] ++ s.hand id ++ [] = _
    rw [hnone, append_nil, append_nil]
    exact hsplit

theorem closeTaken (hx : x.Sound limits id) (ha : x.await = .closeGate id reason)
    (hs : x.stream = some s) (hg : s.sendGateFree = true) (hq : s.closeQueued = false) :
    Side.Spoken limits.maxData id late
      { x with
        stream := some { s with closeQueued := true, driverGate := true }
        await := .closeSend id reason } said closes := by
  obtain ⟨hout, hcr, -⟩ := Stream.sendGateFree_iff.mp hg
  have hfree := Stream.hand_of_free id hout hcr
  refine .of_some rfl h.fresh (hx.not_setting hs) rfl (fun _ => .inr (.inr ⟨reason, rfl⟩)) nofun ?_
  obtain ⟨setup, word, acks, hsp⟩ := h.spelled s hs
  have hacks : acks = [] := by
    by_contra hne
    rw [(hsp.after hne).2.1] at hq
    cases hq
  have hsplit := hsp.split
  rw [hfree, ha, hacks] at hsplit
  simp only [hand, append_nil] at hsplit
  refine ⟨setup, word ++ [.close id reason], [], ?_, hsp.sets, ?_, by simp, by simp, ?_⟩
  · have hhand : Stream.hand id { s with closeQueued := true, driverGate := true } = [] := hfree
    rw [hhand, hsplit]
    simp [hand]
  · rw [exec_snoc hsp.reads]
    cases hsh : s.hasShut <;> simp [Stream.stage, Stage.next, hq, hsh]
  · intro hnone
    exact Nat.zero_lt_of_lt (hsp.fewer hnone)

theorem closeSent (hx : x.Sound limits id) (ha : x.await = .closeSend id reason)
    (hs : x.stream = some s) :
    Side.Spoken limits.maxData id late
      { x with stream := some { s with driverGate := false, aborted := true }, await := .idle }
      (said ++ [.close id reason]) closes := by
  obtain ⟨hq, hout, hfree⟩ := hx.sends_alone ha hs
  refine .of_some rfl (fun hno => nomatch (hx.known_of_stream hs).symm.trans hno)
    (hx.not_setting hs) rfl (fun _ => .inl ⟨hq, hout⟩) nofun ?_
  obtain ⟨setup, word, acks, hsp⟩ := h.spelled s hs
  have hsplit := hsp.split
  rw [hfree, ha] at hsplit
  simp only [hand, append_nil] at hsplit
  refine ⟨setup, word, acks, { hsp with split := ?_ }⟩
  have hhand : Stream.hand id { s with driverGate := false, aborted := true } = [] := hfree
  rw [hhand, ← hsplit]
  simp [hand]

theorem turn (hidle : x.await.hand = []) (hs : x.stream = some s) (s' : Stream) (ha : s.Alike s')
    (st' : Option σ) (await' : Await) (closes' : ℕ)
    (hset : ∀ st, st' = some st → StreamState.setting st = false)
    (haw : await'.hand = [] ∧ await'.next.inserts = none)
    (hover : (∀ st, st' = some st → StreamState.opened st = false) →
      s.Over ∨ (∃ reason, await' = .closeGate id reason) ∨ ∃ reason, await' = .closeSend id reason)
    (hkeep : x.state = none → st' = none) (hle : closes ≤ closes')
    (hmore : st' = none → x.state = none ∨ closes < closes') :
    Side.Spoken limits.maxData id late
      { x with state := st', stream := some s', await := await' } said closes' := by
  refine .of_some rfl h.fresh hset haw.2 ?_ ?_ ?_
  · intro hno
    rcases hover hno with ho | hgate
    · exact .inl (ha.over ho)
    · exact .inr hgate
  · intro f next he
    have he' : await' = .ordered f next := he
    rw [he'] at haw
    cases haw.1
  · obtain ⟨setup, word, acks, hsp⟩ := h.spelled s hs
    refine ⟨setup, word, acks, ?_, hsp.sets, ?_, hsp.acked, ?_, ?_⟩
    · have hsplit := hsp.split
      rw [hidle] at hsplit
      rw [ha.hand, haw.1]
      exact hsplit
    · rw [ha.stage]
      exact hsp.reads
    · intro hacks
      obtain ⟨hlate, hcq, hnone⟩ := hsp.after hacks
      exact ⟨hlate, ha.closeQueued.trans hcq, hkeep hnone⟩
    · intro hnone
      rcases hmore hnone with hbefore | hlt
      · have := hsp.fewer hbefore
        omega
      · -- a stream that was in the table has acknowledged nothing
        by_cases hacks : acks = []
        · rw [hacks]
          exact Nat.zero_lt_of_lt hlt
        · have := hsp.fewer (hsp.after hacks).2.2
          omega

end

theorem of_none (hs : x.stream = none) (hfresh : x.known = false → said = [])
    (hset : (∃ st, x.state = some st ∧ StreamState.setting st = true) ∨
      x.await.next.inserts ≠ none → ∀ f ∈ said ++ x.await.hand, f.setsUp = true) :
    x.Spoken limits.maxData id late said closes := by
  have hnone : ∀ {P : Prop} s, x.stream = some s → P := by
    intro P s hsome
    rw [hs] at hsome
    cases hsome
  exact ⟨⟨fun s hs _ => hnone s hs, fun _ _ s _ hs => hnone s hs⟩, hfresh, hset,
    fun s hs => hnone s hs⟩

section
variable (h : x.Spoken limits.maxData id late said closes)
include h

theorem move (hx : x.Sound limits id) (hm : SideMove limits.maxData id x x' out) :
    x'.Spoken limits.maxData id late (said ++ out) closes := by
  cases hm with
  | skip => simpa using h
  | stop | refused => simpa using h.pass (fun hk => hk)
  | act a hs hrun hstep => exact h.act hx hs hrun hstep
  | sent hrun ha => exact h.sent hx ha
  | closeFound hrun ha hs hg hq =>
    rename_i s reason
    obtain ⟨hout, -, -⟩ := Stream.sendGateFree_iff.mp hg
    rw [append_nil]
    exact h.turn (by rw [ha]; rfl) hs { s with aborted := true } ⟨rfl, rfl, rfl, rfl⟩ x.state .idle closes
      (hx.not_setting hs) ⟨rfl, rfl⟩ (fun _ => .inl ⟨hq, hout⟩) (fun hn => hn) (Nat.le_refl _)
      (fun hn => .inl hn)
  | closeTaken hrun ha hs hg hq =>
    rw [append_nil]
    exact h.closeTaken hx ha hs hg hq
  | closeSent hrun ha hs => exact h.closeSent hx ha hs
  | @pushed s s' payload hrun ha hs hg hp =>
    have halike : s.Alike s' := by
      obtain ⟨-, -, -, rfl⟩ := Stream.pushInbound_ok hp
      exact ⟨rfl, rfl, rfl, rfl⟩
    obtain ⟨-, st, hst, hopen⟩ := hx.credit id _ ha
    rw [append_nil]
    exact h.turn (by rw [ha]; rfl) hs _ halike x.state .idle closes
      (hx.not_setting hs) ⟨rfl, rfl⟩
      (fun hno => by rw [hno st hst] at hopen; cases hopen) (fun hn => hn) (Nat.le_refl _)
      (fun hn => .inl hn)
  | torn hend hs =>
    rw [append_nil]
    exact h.setStream hs ⟨rfl, rfl, rfl, rfl⟩

theorem more (hle : closes ≤ closes') :
    x.Spoken limits.maxData id late said closes' := by
  refine { h with spelled := ?_ }
  intro s hs
  obtain ⟨setup, word, acks, hsp⟩ := h.spelled s hs
  refine ⟨setup, word, acks, { hsp with fewer := ?_ }⟩
  intro hnone
  have := hsp.fewer hnone
  omega

theorem flow (hx : x.Sound limits id) (hidle : x.await = .idle) {standing : Standing}
    (htakes : standing = .takes → ∃ st, x.state = some st ∧ StreamState.opened st = true)
    {stream : Option Stream} (hf : FlowCase limits standing x.stream f stream await) :
    Side.Spoken limits.maxData id late { x with stream := stream, await := await } said closes := by
  -- an open stream takes the frame: only what it has received and may send changes
  have hopen : standing = .takes → ∀ s (s' : Stream) (await : Await), x.stream = some s →
      s.Alike s' → await.hand = [] ∧ await.next.inserts = none →
      Side.Spoken limits.maxData id late { x with stream := some s', await := await } said closes := by
    intro ht s s' await hs ha haw
    obtain ⟨st, hst, ho⟩ := htakes ht
    exact h.turn (by rw [hidle]; rfl) hs s' ha x.state await closes (hx.not_setting hs) haw
      (fun hno => by rw [hno st hst] at ho; cases ho) (fun hn => hn) (Nat.le_refl _)
      (fun hn => .inl hn)
  cases hf with
  | ignored hst =>
    rw [← hidle]
    exact h
  | missing ht hs =>
    obtain ⟨st, hst, ho⟩ := htakes ht
    obtain ⟨s, hsome, -⟩ := hx.opened st hst ho
    rw [hs] at hsome
    cases hsome
  | data ht hle =>
    obtain ⟨st, hst, ho⟩ := htakes ht
    obtain ⟨s, hs, -⟩ := hx.opened st hst ho
    rw [hs]
    exact hopen ht s s _ hs ⟨rfl, rfl, rfl, rfl⟩ ⟨rfl, rfl⟩
  | shutdown ht hs hfin =>
    obtain ⟨-, rfl⟩ := Stream.finishInbound_ok hfin
    exact hopen ht _ _ _ hs ⟨rfl, rfl, rfl, rfl⟩ ⟨rfl, rfl⟩
  | credit ht hs hc =>
    obtain rfl := Stream.addCredit_ok hc
    exact hopen ht _ _ _ hs ⟨rfl, rfl, rfl, rfl⟩ ⟨rfl, rfl⟩

theorem shut (hx : x.Sound limits id) (hidle : x.await = .idle) {st : σ} (hst : x.state = some st)
    (ho : StreamState.opened st = true) (st' : Option σ) (reason : CloseReason)
    (failure : Stream → Option StreamFailure) (closes' : ℕ)
    (hset : ∀ st, st' = some st → StreamState.setting st = false) (hle : closes ≤ closes')
    (hmore : st' = none → closes < closes') :
    Side.Spoken limits.maxData id late { x with
      state := st'
      stream := x.stream.map fun s => s.shut (failure s)
      await := .closeGate id reason } said closes' := by
  obtain ⟨s, hs, -⟩ := hx.opened st hst ho
  rw [hs, Option.map_some]
  exact h.turn (by rw [hidle]; rfl) hs (s.shut (failure s)) ⟨rfl, rfl, rfl, rfl⟩ st' (.closeGate id reason)
    closes' hset ⟨rfl, rfl⟩ (fun _ => .inr (.inl ⟨reason, rfl⟩))
    (fun hn => by rw [hst] at hn; cases hn) hle (fun hn => .inr (hmore hn))

theorem event (hx : x.Sound limits id) (hrun : x.ended = false) (hidle : x.await = .idle)
    {w : WorkerEvent} {rest : List WorkerEvent} (hw : x.events = w :: rest) {y : Entry σ}
    (hcase : EventCase w ⟨x.state, x.stream⟩ y) :
    Side.Spoken limits.maxData id late
      { x with state := y.state, stream := y.stream, events := rest } said closes := by
  cases hcase with
  | ignored => exact h.pass (fun hk => hk)
  | retired hst ho hno hkept =>
    rename_i st st'
    obtain ⟨⟨hev, s, hs, hover⟩, -⟩ := hx.report hrun hidle hw hst ho st' hno
    simp only [hs, Option.map_some]
    have hset : ∀ st, st' = some st → StreamState.setting st = false := by
      intro t ht
      by_contra hyes
      have hearly := (hno t ht).2
      rw [StreamState.early_of_setting t (by simpa using hyes)] at hearly
      cases hearly
    have hfree : x.await.hand = [] ∧ x.await.next.inserts = none := by rw [hidle]; exact ⟨rfl, rfl⟩
    have hturn := h.turn hfree.1 hs { s with aborted := true } ⟨rfl, rfl, rfl, rfl⟩ st' x.await
      closes hset hfree (fun _ => .inl hover) (fun hn => nomatch hn.symm.trans hst) (Nat.le_refl _)
      (fun hn => absurd hn (hkept id hev))
    exact hturn.pass (fun hk => hk)

end

theorem spawn (hk : x.known = true) (hset : ∀ f ∈ said, f.setsUp = true) (st : σ)
    (hst : StreamState.opened st = true ∧ StreamState.setting st = false) (s : Stream)
    (hout : s.outPc = .select) (hcr : s.creditPc = .check) (hq : s.closeQueued = false)
    (hsent : s.shutdownSent = false) :
    Side.Spoken limits.maxData id late
      { x with state := some st, stream := some s, await := .idle } said closes := by
  refine .of_some rfl (fun hno => nomatch hk.symm.trans hno) ?_ rfl ?_ nofun ?_
  · rintro t ⟨⟩
    exact hst.2
  · exact fun hno => nomatch hst.1.symm.trans (hno st rfl)
  · refine ⟨said, [], [], ?_, hset, ?_, by simp, by simp, by simp⟩
    · simp [Stream.hand, hout, hcr, hand]
    · simp [exec, Stream.stage, Stream.hasShut, hq, hsent, hout]

section
variable (h : x.Spoken limits.maxData id late said closes)
include h

theorem over_of_idle (hidle : x.await = .idle) (hs : x.stream = some s)
    (hno : ∀ st, x.state = some st → StreamState.opened st = false) :
    s.Over := by
  rcases h.ceased s hs hno with hover | ⟨reason, ha⟩ | ⟨reason, ha⟩
  · exact hover
  · rw [hidle] at ha
    cases ha
  · rw [hidle] at ha
    cases ha

theorem setup {st : σ} (hst : x.state = some st) (hset : StreamState.setting st = true) :
    ∀ f ∈ said, f.setsUp = true :=
  fun f hf => h.setting (.inl ⟨st, hst, hset⟩) f (mem_append_left _ hf)

theorem retire (hidle : x.await = .idle) {st : σ} (hst : x.state = some st)
    (ho : StreamState.opened st = false) (hlt : closes < closes') :
    Side.Spoken limits.maxData id late ({ x with state := none } : Side σ) said closes' := by
  have hfree : x.await.hand = [] ∧ x.await.next.inserts = none := by rw [hidle]; exact ⟨rfl, rfl⟩
  cases hs : x.stream with
  | none =>
    refine .of_none rfl h.fresh ?_
    rintro (⟨t, ht, -⟩ | hp)
    · cases ht
    · exact absurd hfree.2 hp
  | some s =>
    have hover : s.Over := by
      refine h.over_of_idle hidle hs fun t ht => ?_
      rw [hst] at ht
      cases ht
      exact ho
    exact h.turn hfree.1 hs s ⟨rfl, rfl, rfl, rfl⟩ none x.await closes' (by simp) hfree
      (fun _ => .inl hover) (fun _ => rfl) (by omega) (fun _ => .inr hlt)

end

end Side.Spoken

theorem setsUp_snoc {fs : List Frame} (h : ∀ g ∈ fs, g.setsUp = true) (hf : f.setsUp = true) :
    ∀ g ∈ fs ++ [f], g.setsUp = true := by
  intro g hg
  rcases mem_append.mp hg with hmem | hmem
  · exact h g hmem
  · rw [mem_singleton.mp hmem]
    exact hf

section Client

variable {limits : NegotiatedLimits} {id : ℕ} {x : Side ClientStreamState} {said : List Frame}
  {closes : ℕ}

theorem Side.Spoken.command (h : x.Spoken limits.maxData id false said closes)
    (hx : x.Sound limits id) (hidle : x.await = .idle) {cmd : ClientCommand}
    (hid : Client.commandId cmd = id)
    (hnew : Client.creates cmd = true → x.known = false ∧ id % 2 = 1)
    {full : Bool} (hr : CommandCase full ⟨x.state, x.stream⟩ r cmd) :
    Side.Spoken limits.maxData id false { x with
      state := r.entry.state
      stream := r.entry.stream
      await := r.await
      known := x.known || Client.creates cmd } said closes := by
  cases hr with
  | keep =>
    rw [← hidle]
    exact h.pass (fun hk => by simp [hk])
  | resolve hx' | openIp hx' =>
    obtain ⟨hk, -⟩ := hnew rfl
    rw [h.fresh hk]
    exact .of_none (hx.fresh hk).2.1 (fun _ => rfl) (by simp [hand, setsUp])
  | openTo hx' hmem =>
    exact .of_none (hx.early _ hx' rfl) (fun hk => h.fresh (Bool.or_eq_false_iff.mp hk).1)
      (fun _ => setsUp_snoc (h.setup hx' rfl) rfl)
  | closeOpened hx' =>
    rename_i permit
    cases hid
    have hshut := h.shut hx hidle hx' rfl (some (.closing permit)) .cancelled
      (fun _ => some (.session cancelled)) closes (by simp [StreamState.setting,
        ClientStreamState.early]) (Nat.le_refl _) (by simp)
    exact hshut.pass (fun hk => by simp only at hk; simp [hk])
  | closeEarly permit hx' hst =>
    refine .of_none (hx.early _ hx' hst) (fun hk => ?_) ?_
    · exact h.fresh (Bool.or_eq_false_iff.mp hk).1
    · simp [StreamState.setting, ClientStreamState.early, Await.next, Next.inserts]

theorem Side.Spoken.clientFrame {alive : Bool} (h : x.Spoken limits.maxData id false said closes)
    (hx : x.Sound limits id) (hidle : x.await = .idle) (hf : f.lane = some id)
    (hr : ClientFrameCase limits alive ⟨x.state, x.stream⟩ r f) :
    Side.Spoken limits.maxData id false { x with
      state := r.entry.state, stream := r.entry.stream, await := r.await } said
      (closes + [f].countP isClose) := by
  cases hr with
  | flow hc =>
    exact (h.flow hx hidle ClientStreamState.takes_opened hc).more (Nat.le_add_right _ _)
  | late hx' hf' =>
    rw [← hidle]
    exact h.more (Nat.le_add_right _ _)
  | resolved hx' hne | openFailed hx' =>
    refine .of_none (hx.early _ hx' rfl) h.fresh ?_
    simpa [hand] using fun _ => h.setup hx' rfl
  | emptied hx' he | resolveFailed hx' =>
    exact .of_none (hx.early _ hx' rfl) h.fresh (by simp [Await.next, Next.inserts])
  | abandoned hx' hne =>
    exact .of_none (hx.early _ hx' rfl) h.fresh
      (by simp [StreamState.setting, ClientStreamState.early, Await.next, Next.inserts])
  | opened hx' =>
    have hk := hx.known_of_state hx'
    cases alive with
    | true | false => exact .spawn hk (h.setup hx' rfl) _ ⟨rfl, rfl⟩ _ rfl rfl rfl rfl
  | closeLast hx' =>
    rw [← hidle]
    exact h.retire hidle hx' rfl (by simp [isClose])
  | closeOpened hx' =>
    rename_i reason permit
    cases hf
    exact h.shut hx hidle hx' rfl none .normal
      (fun s => if reason ≠ .normal then some (.remoteClosed reason) else s.failure) _ (by simp)
      (Nat.le_add_right _ _) (by simp [isClose])
  | closeEarly hx' hst =>
    exact .of_none (hx.early _ hx' hst) h.fresh (by simp [Await.next, Next.inserts])

theorem Side.Spoken.clientMove (h : x.Spoken limits.maxData id false said closes)
    (hx : x.Sound limits id) {x' : Side ClientStreamState}
    (hm : ClientMove limits id x x' inp out) :
    x'.Spoken limits.maxData id false (said ++ out) (closes + inp.countP isClose) := by
  cases hm with
  | side hm => exact h.move hx hm
  | pass | commandError =>
    rw [append_nil]
    exact h.pass (fun hk => by simp [hk])
  | command hid hrun hidle hnew hr =>
    rw [append_nil]
    exact h.command hx hidle hid hnew (handleClientCommand_case hr)
  | frame hf hrun hidle hr =>
    rw [append_nil]
    exact h.clientFrame hx hidle hf (handleClientFrame_case hr)
  | frameError =>
    rw [append_nil]
    exact (h.pass (fun hk => hk)).more (Nat.le_add_right _ _)
  | event hrun hidle hw =>
    rw [append_nil]
    exact h.event hx hrun hidle hw (clientWorkerEvent_case _ _)

end Client

section Agent

variable {limits : NegotiatedLimits} {policy : AgentPolicy} {id : ℕ} {x : Side AgentStreamState}
  {said : List Frame} {closes : ℕ}

section
variable (h : x.Spoken limits.maxData id true said closes)
include h

theorem Side.Spoken.closeStale (hidle : x.await = .idle) (hst : x.state = none)
    (hk : x.known = true → known = true) (hlt : closes < closes') :
    Side.Spoken limits.maxData id true ({ x with
      state := none
      await := .ordered (.close id .normal) .done
      known := known } : Side AgentStreamState) said closes' := by
  have hover : ∀ s, x.stream = some s → s.Over := fun s hs =>
    h.over_of_idle hidle hs (by simp [hst])
  refine ⟨⟨fun s hs _ => .inl (hover s hs), fun _ _ s _ hs => hover s hs⟩, h.stays_fresh hk, ?_, ?_⟩
  · rintro (⟨t, ht, -⟩ | hp)
    · cases ht
    · exact absurd rfl hp
  · intro s hs
    obtain ⟨setup, word, acks, hsp⟩ := h.spelled s hs
    refine ⟨setup, word, acks ++ [.close id .normal], ?_, hsp.sets, hsp.reads, ?_, ?_, ?_⟩
    · have hsplit := hsp.split
      rw [hidle] at hsplit
      simp only [hand, append_nil] at hsplit ⊢
      rw [hsplit, append_assoc (setup ++ word)]
    · intro f hf
      rcases mem_append.mp hf with hf | hf
      · exact hsp.acked f hf
      · exact mem_singleton.mp hf
    · intro _
      exact ⟨rfl, (hover s hs).1, rfl⟩
    · intro _
      have := hsp.fewer hst
      rw [length_append, length_singleton]
      omega

theorem Side.Spoken.agentFrame (hx : x.Sound limits id) (hidle : x.await = .idle) {v : AgentView}
    (hv : v.limits = limits) (hk : x.known = id.ble v.highest) (hf : f.lane = some id)
    {r : AgentHandled} (hr : AgentFrameCase v ⟨x.state, x.stream⟩ r f) :
    Side.Spoken limits.maxData id true { x with
      state := r.entry.state
      stream := r.entry.stream
      await := r.await
      known := id.ble r.highest } said (closes + [f].countP isClose) := by
  -- an identifier that registers now has not been used
  have hnew : ∀ {i}, v.highest < i → i = id → x.stream = none ∧ said = [] := by
    intro i hi he
    have hkn : x.known = false := by
      rw [hk, ← Bool.not_eq_true, Nat.ble_eq]
      omega
    exact ⟨(hx.fresh hkn).2.1, h.fresh hkn⟩
  cases hr with
  | flow hc =>
    rw [← hk]
    exact (h.flow hx hidle AgentStreamState.takes_opened (hv ▸ hc)).more (Nat.le_add_right _ _)
  | refusedNew code diagnostic hf' hx' hnew' =>
    rename_i i
    have hi : i = id := by
      rcases hf' with ⟨port, hostname, rfl⟩ | ⟨address, rfl⟩ <;> exact Option.some.inj hf
    exact .of_none (hnew hnew' hi).1 (fun _ => (hnew hnew' hi).2) (by simp [Await.next, Next.inserts])
  | resolve hx' hnew' | connectNew hx' hnew' =>
    cases hf
    obtain ⟨hs, hsaid⟩ := hnew hnew' rfl
    exact .of_none hs (fun _ => hsaid) (by simp [hsaid, hand])
  | refused code diagnostic hx' =>
    rw [← hk]
    exact .of_none (hx.early _ hx' rfl) h.fresh (fun _ => setsUp_snoc (h.setup hx' rfl) rfl)
  | connect hx' =>
    rw [← hk]
    refine .of_none (hx.early _ hx' rfl) h.fresh (fun _ => ?_)
    simpa [hand] using h.setup hx' rfl
  | closeStale hx' hold =>
    cases hf
    exact h.closeStale hidle hx' (fun _ => by rw [Nat.ble_eq]; exact hold) (by simp [isClose])
  | closeLast hx' =>
    rw [← hk, ← hidle]
    exact h.retire hidle hx' rfl (by simp [isClose])
  | closeOpened hx' =>
    rename_i reason
    cases hf
    rw [← hk]
    exact h.shut hx hidle hx' rfl none .normal
      (fun s => if reason ≠ .normal then some (.remoteClosed reason) else s.failure) _ (by simp)
      (Nat.le_add_right _ _) (by simp [isClose])
  | cancel hx' =>
    have hs : x.stream = none := by
      rcases hx' with h' | ⟨candidates, h'⟩ <;> exact hx.early _ h' rfl
    rw [← hk]
    exact .of_none hs h.fresh (by simp [StreamState.setting, Await.next, Next.inserts])
  | closeResolved hx' =>
    rw [← hk]
    exact .of_none (hx.early _ hx' rfl) h.fresh (by simp [Await.next, Next.inserts])
  | closeCancelled hx' =>
    rw [← hk, ← hidle]
    exact h.more (Nat.le_add_right _ _)

theorem Side.Spoken.agentFinish (hx : x.Sound limits id) (hidle : x.await = .idle)
    {done : AgentOperation} {y : Entry AgentStreamState}
    (hr : FinishCase ⟨x.state, x.stream⟩ y await done) :
    Side.Spoken limits.maxData id true
      { x with state := y.state, stream := y.stream, await := await } said closes := by
  cases hr with
  | gone hx' =>
    rw [← hidle]
    rcases hx' with hnone | hgone
    · have hnone' : x.state = none := hnone
      rw [← hnone']
      exact h
    · refine .of_none (hx.early _ hgone rfl) h.fresh ?_
      rw [hidle]
      simp [Await.next, Next.inserts]
  | resolved hx' hne | opened bound hx' | unopened code diagnostic hx' =>
    exact .of_none (hx.early _ hx' rfl) h.fresh (fun _ => setsUp_snoc (h.setup hx' rfl) rfl)
  | unresolved code diagnostic hx' =>
    exact .of_none (hx.early _ hx' rfl) h.fresh (by simp [Await.next, Next.inserts])

theorem Side.Spoken.agentMove (hx : x.Sound limits id) {x' : Side AgentStreamState}
    {ops ops' : List Operation} (hm : AgentMove limits policy id x ops x' ops' inp out) :
    x'.Spoken limits.maxData id true (said ++ out) (closes + inp.countP isClose) := by
  cases hm with
  | side hm => exact h.move hx hm
  | pass =>
    rw [append_nil]
    exact h.pass (fun hk => by simp [hk])
  | frame hv hk hf hrun hidle hr =>
    rw [append_nil]
    exact h.agentFrame hx hidle hv hk hf (handleAgentFrame_case hr)
  | frameError hv hk =>
    rw [append_nil]
    exact (h.pass (fun hk => hk)).more (Nat.le_add_right _ _)
  | event hrun hidle hw =>
    rw [append_nil]
    exact h.event hx hrun hidle hw (agentWorkerEvent_case _ _)
  | finish hop hid hrun hidle hd hr =>
    rw [append_nil]
    exact h.agentFinish hx hidle (finishAgentOperation_case hr)
  | finishError =>
    rw [append_nil]
    exact h.pass (fun hk => hk)
  | resolved hrun ha =>
    have hp : x.await.next.inserts ≠ none := by simp [ha, Await.next, Next.inserts]
    have hset := h.setting (.inr hp)
    rw [ha] at hset
    refine .of_none (hx.pending hp).2 (fun hk => ?_) (fun _ => ?_)
    · rw [(hx.fresh hk).2.2] at ha
      cases ha
    · simpa [hand] using hset
  | opened hrun ha =>
    have hp : x.await.next.inserts ≠ none := by simp [ha, Await.next, Next.inserts]
    have hset := h.setting (.inr hp)
    have hk := hx.known_of_busy (by simp [ha])
    rw [ha] at hset
    exact .spawn hk hset .opened ⟨rfl, rfl⟩ _ rfl rfl rfl rfl

end

end Agent

theorem Spelling.said {σ : Type} {id closes : ℕ} {late : Bool} {x : Side σ}
    {said setup word acks : List Frame}
    (h : Spelling maxData id late x s said closes setup word acks) :
    ∃ setup' word' acks', said = setup' ++ word' ++ acks' ∧ (∀ f ∈ setup', f.setsUp = true) ∧
      Follows maxData word' ∧ (∀ f ∈ acks', f = .close id .normal) ∧
      (acks' ≠ [] → late = true ∧ exec (Stage.next maxData) .flowing word' = some .closed ∧
        acks'.length < closes) := by
  have hfollows : ∀ word', word' <+: word → Follows maxData word' := by
    intro word' hp
    obtain ⟨st, hst⟩ := exec_of_isPrefix hp h.reads
    simp [Follows, hst]
  have hsplit := h.split
  rw [append_assoc, append_assoc] at hsplit
  rcases append_eq_append_iff.mp hsplit with ⟨as, hsetup, -⟩ | ⟨bs, hsaid, hrest⟩
  · refine ⟨said, [], [], by simp, ?_, hfollows [] nil_prefix, by simp, by simp⟩
    intro f hf
    exact h.sets f (by rw [hsetup]; exact mem_append_left _ hf)
  · rcases append_eq_append_iff.mp hrest with ⟨as, hbs, hacks⟩ | ⟨cs, hword, -⟩
    · refine ⟨setup, word, as, by rw [hsaid, hbs, append_assoc], h.sets,
        hfollows word (prefix_refl _), ?_, ?_⟩
      · intro f hf
        exact h.acked f (by rw [hacks]; exact mem_append_left _ hf)
      · intro has
        have hne : acks ≠ [] := by
          rw [hacks]
          exact fun he => has (append_eq_nil_iff.mp he).1
        obtain ⟨hlate, hq, hnone⟩ := h.after hne
        refine ⟨hlate, ?_, ?_⟩
        · rw [h.reads]
          simp [Stream.stage, hq]
        · have := h.fewer hnone
          rw [hacks, length_append] at this
          omega
    · exact ⟨setup, bs, [], by rw [hsaid, append_nil], h.sets, hfollows bs ⟨cs, hword.symm⟩,
        by simp, by simp⟩

/- The CLOSEs of one stream that a peer sends in a run. -/
def PeerAct.bringsClose {α : Type} (id : ℕ) : PeerAct α → Bool
  | .arrive f => f.isClose && decide (f.lane = some id)
  | _ => false

structure Client.Spoken (limits : NegotiatedLimits) (c : Client) : Prop where
  sound : c.Sound limits
  said : ∀ id, ∃ closes, (c.side id).Spoken limits.maxData id false (onLane id c.ep.log) closes

structure Agent.Spoken (limits : NegotiatedLimits) (run : List (PeerAct AgentAct)) (a : Agent) :
    Prop where
  sound : a.Sound limits
  said : ∀ id, ∃ closes, (a.side id).Spoken limits.maxData id true (onLane id a.ep.log) closes ∧
    closes + (a.ep.incoming id).countP isClose = run.countP (PeerAct.bringsClose id)

theorem Client.Spoken.start (limits : NegotiatedLimits) : Client.start.Spoken limits :=
  ⟨.start limits, fun _ => ⟨0, .of_none rfl (fun _ => rfl) (by
    simp [Client.side, Endpoint.side, Client.start, Endpoint.start, Await.next, Next.inserts])⟩⟩

theorem Agent.Spoken.start (limits : NegotiatedLimits) : Agent.start.Spoken limits [] :=
  ⟨.start limits, fun _ => ⟨0, .of_none rfl (fun _ => rfl) (by
    simp [Agent.side, Endpoint.side, Agent.start, Endpoint.start, Await.next, Next.inserts]), rfl⟩⟩

theorem Client.Spoken.meet {limits : NegotiatedLimits} {c c' : Client} {act : PeerAct ClientAct}
    (hc : c.Spoken limits) (h : c.meet limits caps act = some c') : c'.Spoken limits := by
  cases act with
  | arrive f =>
    obtain ⟨-, -, rfl⟩ := Endpoint.arrive_put h
    exact ⟨hc.sound.wire _ _, hc.said⟩
  | depart =>
    cases Endpoint.depart_put h
    exact ⟨hc.sound.wire _ _, hc.said⟩
  | own act =>
    refine ⟨hc.sound.step h, fun id => ?_⟩
    obtain ⟨inp, out, hmove, hflow⟩ := Client.step_side hc.sound.orderly h id
    obtain ⟨closes, hsaid⟩ := hc.said id
    have hnext := hsaid.clientMove (hc.sound.sides id) hmove
    rw [← hflow.logged] at hnext
    exact ⟨_, hnext⟩

theorem Agent.Spoken.meet {limits : NegotiatedLimits} {policy : AgentPolicy}
    {run : List (PeerAct AgentAct)} {a a' : Agent} {act : PeerAct AgentAct}
    (ha : a.Spoken limits run) (h : a.meet limits policy caps act = some a') :
    a'.Spoken limits (run ++ [act]) := by
  cases act with
  | arrive f =>
    obtain ⟨-, hr, rfl⟩ := Endpoint.arrive_put h
    refine ⟨ha.sound.wire _ _, fun id => ?_⟩
    obtain ⟨closes, hsaid, hcount⟩ := ha.said id
    refine ⟨closes, hsaid, ?_⟩
    have hin : Endpoint.incoming { a.ep with reader := some f } id = a.ep.incoming id ++ onLane id [f] := by
      simp [Endpoint.incoming, hr]
    have hclose : (onLane id [f]).countP isClose =
        [(.arrive f : PeerAct AgentAct)].countP (PeerAct.bringsClose id) := by
      rw [onLane, countP_filter, countP_singleton, countP_singleton]
      rfl
    show closes + (Endpoint.incoming { a.ep with reader := some f } id).countP isClose = _
    rw [hin, countP_append, countP_append, ← hcount, hclose]
    omega
  | depart =>
    cases Endpoint.depart_put h
    refine ⟨ha.sound.wire _ _, fun id => ?_⟩
    obtain ⟨closes, hsaid, hcount⟩ := ha.said id
    refine ⟨closes, hsaid, ?_⟩
    rw [countP_append]
    exact hcount
  | own act =>
    refine ⟨ha.sound.step h, fun id => ?_⟩
    obtain ⟨inp, out, hmove, hflow⟩ := Agent.step_side ha.sound.orderly h id
    obtain ⟨closes, hsaid, hcount⟩ := ha.said id
    have hnext := hsaid.agentMove (ha.sound.sides id) hmove
    rw [← hflow.logged] at hnext
    refine ⟨_, hnext, ?_⟩
    rw [hflow.incoming, countP_append] at hcount
    have hown : [PeerAct.own act].countP (PeerAct.bringsClose id) = 0 := rfl
    rw [countP_append, hown]
    omega

/-- What a stream queues after the frames that set it up follows the grammar. Only the agent says
more: it acknowledges CLOSEs that are repeated for a closed stream. -/
theorem stream_frames_follow_grammar (limits : NegotiatedLimits) (policy : AgentPolicy)
    (caps : Caps) :
    (∀ c, Reachable (Client.meet limits caps) Client.start c →
      ∀ id s, c.ep.live.lookup id = some s →
        ∃ setup word, onLane id c.ep.log = setup ++ word ∧ (∀ f ∈ setup, f.setsUp = true) ∧
          Follows limits.maxData word) ∧
    (∀ run a, exec (Agent.meet limits policy caps) Agent.start run = some a →
      ∀ id s, a.ep.live.lookup id = some s →
        ∃ setup word acks, onLane id a.ep.log = setup ++ word ++ acks ∧
          (∀ f ∈ setup, f.setsUp = true) ∧ Follows limits.maxData word ∧
          (∀ f ∈ acks, f = .close id .normal) ∧
          (acks ≠ [] → exec (Stage.next limits.maxData) .flowing word = some .closed ∧
            acks.length < run.countP (PeerAct.bringsClose id))) := by
  constructor
  · intro c hc id s hs
    have hspoken : c.Spoken limits := hc.invariant (.start limits) fun _ _ _ hb hm => hb.meet hm
    obtain ⟨closes, hsaid⟩ := hspoken.said id
    obtain ⟨setup, word, acks, hsp⟩ := hsaid.spelled s hs
    obtain ⟨setup', word', acks', hlog, hsets, hfollows, -, hlate⟩ := hsp.said
    have hacks : acks' = [] := by
      by_contra hne
      cases (hlate hne).1
    rw [hacks, List.append_nil] at hlog
    exact ⟨setup', word', hlog, hsets, hfollows⟩
  · intro run a hrun id s hs
    have hspoken : a.Spoken limits run :=
      exec_history (Agent.Spoken.start limits) (fun _ _ _ _ hb hm => hb.meet hm) hrun
    obtain ⟨closes, hsaid, hcount⟩ := hspoken.said id
    obtain ⟨setup, word, acks, hsp⟩ := hsaid.spelled s hs
    obtain ⟨setup', word', acks', hlog, hsets, hfollows, hacked, hlate⟩ := hsp.said
    refine ⟨setup', word', acks', hlog, hsets, hfollows, hacked, fun hne => ?_⟩
    obtain ⟨-, hclosed, hlt⟩ := hlate hne
    exact ⟨hclosed, by omega⟩

def closedTwice : List (PeerAct AgentAct) :=
  [.arrive (.openTo 1 (.v4 0x08080808 80)), .own .deliver, .own .frame,
    .own (.finish 0 (.socket (.ok (.ok (.v4 0x0a000001 4000))))), .own .resume, .own (.pick false), .depart,
    .own (.stream 1 (.write [7])), .own (.stream 1 .outbound), .own (.stream 1 .outbound),
    .own (.stream 1 .outbound), .own (.stream 1 .outbound), .own (.stream 1 .outbound),
    .own (.pick false), .depart,
    .arrive (.close 1 .normal), .own .deliver, .own .frame, .own .resume, .own .resume,
    .own (.pick false), .depart,
    .arrive (.close 1 .normal), .own .deliver, .own .frame, .own .resume]

theorem agent_acknowledges_second_close :
    ∃ a s, exec (Agent.meet oneStream ⟨true, true, true⟩ smallCaps) Agent.start closedTwice = some a ∧
      a.ep.live.lookup 1 = some s ∧
      onLane 1 a.ep.log = [.openOk 1 (.v4 0x0a000001 4000), .data 1 [7], .close 1 .normal,
        .close 1 .normal] ∧
      ¬ ∃ setup word, onLane 1 a.ep.log = setup ++ word ∧ (∀ f ∈ setup, f.setsUp = true) ∧
        Follows oneStream.maxData word := by
  refine ⟨_, _, rfl, rfl, rfl, ?_⟩
  rintro ⟨setup, word, hlog, hsets, hfollows⟩
  have hsaid : [.openOk 1 (.v4 0x0a000001 4000), .data 1 [7], .close 1 .normal, .close 1 .normal] =
      setup ++ word := hlog
  cases setup with
  | nil =>
    cases hsaid
    exact absurd hfollows (by decide)
  | cons f rest =>
    cases rest with
    | nil =>
      cases hsaid
      exact absurd hfollows (by decide)
    | cons =>
      simp only [List.cons_append, List.cons.injEq] at hsaid
      obtain ⟨-, rfl, -⟩ := hsaid
      exact absurd (hsets (.data 1 [7]) (by simp)) (by decide)

def openedOnce : List (PeerAct ClientAct) :=
  [.own (.openIp (.v4 0x08080808 80)), .own .command, .own .resume,
    .arrive (.openOk 1 (.v4 0x0a000001 4000)), .own .deliver, .own (.frame true)]

theorem stream_frames_follow_grammar_acknowledged :
    (∃ a, exec (Agent.meet oneStream ⟨true, true, true⟩ smallCaps) Agent.start closedTwice = some a ∧
      ∃ setup word acks, onLane 1 a.ep.log = setup ++ word ++ acks ∧
        Follows oneStream.maxData word ∧ (acks ≠ [] → acks.length < 2)) ∧
    ∃ c, exec (Client.meet oneStream smallCaps) Client.start openedOnce = some c ∧
      ∃ setup word, onLane 1 c.ep.log = setup ++ word ∧ Follows oneStream.maxData word := by
  have hcount : closedTwice.countP (PeerAct.bringsClose 1) = 2 := rfl
  constructor
  · obtain ⟨a, ha, s, hs⟩ : ∃ a, exec (Agent.meet oneStream ⟨true, true, true⟩ smallCaps) Agent.start
        closedTwice = some a ∧ ∃ s, a.ep.live.lookup 1 = some s := ⟨_, rfl, _, rfl⟩
    obtain ⟨setup, word, acks, hlog, -, hfollows, -, hacks⟩ :=
      (stream_frames_follow_grammar oneStream ⟨true, true, true⟩ smallCaps).2 closedTwice a ha 1 s hs
    exact ⟨a, ha, setup, word, acks, hlog, hfollows, fun hne => hcount ▸ (hacks hne).2⟩
  · obtain ⟨c, hc, s, hs⟩ : ∃ c, exec (Client.meet oneStream smallCaps) Client.start openedOnce =
        some c ∧ ∃ s, c.ep.live.lookup 1 = some s := ⟨_, rfl, _, rfl⟩
    obtain ⟨setup, word, hlog, -, hfollows⟩ :=
      (stream_frames_follow_grammar oneStream ⟨true, true, true⟩ smallCaps).1 c
        (reachable_exec openedOnce (Reachable.start _) hc) 1 s hs
    exact ⟨c, hc, setup, word, hlog, hfollows⟩

end Alighieri.Rdp
