import Alighieri.Rdp.Steps

/-!
# What a stream keeps to

`Stream.Sound` is the invariant of one stream under its owner, its two workers and the driver: who
holds which gate, what each worker has checked by the time it holds it, and where the receive
credit is.
-/

namespace Alighieri.Rdp
open List

variable {id maxData window : ℕ} {s s' : Stream} {eff : Effect} {act : StreamAct} {payload : Bytes}

def Frame.bytes : Frame → Bytes
  | .data _ payload => payload
  | _ => []

def Frame.credit : Frame → ℕ
  | .windowUpdate _ credit => credit
  | _ => 0

/- The bytes and the credit a word of frames carries. -/
def dataBytes (fs : List Frame) : Bytes := fs.flatMap Frame.bytes

def creditSum (fs : List Frame) : ℕ := (fs.map Frame.credit).sum

@[simp] theorem dataBytes_nil : dataBytes [] = [] := rfl

@[simp] theorem dataBytes_append (fs gs : List Frame) :
    dataBytes (fs ++ gs) = dataBytes fs ++ dataBytes gs := flatMap_append

@[simp] theorem creditSum_nil : creditSum [] = 0 := rfl

@[simp] theorem creditSum_append (fs gs : List Frame) :
    creditSum (fs ++ gs) = creditSum fs + creditSum gs := by
  simp [creditSum]

@[simp] def OutboundPc.hand (id : ℕ) : OutboundPc → List Frame
  | .sendData payload => [.data id payload]
  | .sendShutdown => [.shutdownWrite id]
  | .sendClose reason => [.close id reason]
  | _ => []

@[simp] def CreditPc.hand (id : ℕ) : CreditPc → List Frame
  | .publish credit => [.windowUpdate id credit]
  | _ => []

/- Credit given back to the peer that the receive credit does not show yet. -/
@[simp] def CreditPc.owed : CreditPc → ℕ
  | .publish credit | .update credit => credit
  | _ => 0

/- Credit taken for bytes that are still in `outbound`. -/
@[simp] def OutboundPc.taken : OutboundPc → ℕ
  | .dataGate credit => credit
  | _ => 0

@[simp] def OutboundPc.shutting : OutboundPc → Bool
  | .sendShutdown | .shutdownSent => true
  | _ => false

/- The worker has taken it upon itself to send CLOSE. -/
@[simp] def OutboundPc.closing : OutboundPc → Bool
  | .sendClose _ | .emit true | .done true | .killed => true
  | _ => false

namespace Stream

def alive (s : Stream) : Bool := !s.dropped && !s.remoteClosed

def hand (id : ℕ) (s : Stream) : List Frame := s.outPc.hand id ++ s.creditPc.hand id

def hasShut (s : Stream) : Bool := s.shutdownSent || s.outPc.shutting

/- The send credit a stream still has a claim to. -/
def held (s : Stream) : ℕ := s.peerCredit.available + s.outPc.taken

/- Received bytes whose credit has not been given back. -/
def kept (s : Stream) : ℕ := s.inbound.length + s.returnedCredit

/- What each worker knows where it stands. -/
def PcSound (maxData : ℕ) (s : Stream) : Prop :=
  match s.outPc with
  | .select | .dataSent _ => True
  | .takeCredit wanted => 0 < wanted ∧ wanted ≤ maxData ∧
      (s.alive = true → wanted ≤ s.outbound.length)
  | .dataGate credit => 0 < credit ∧ credit ≤ maxData ∧
      (s.alive = true → credit ≤ s.outbound.length)
  | .sendData payload => payload ≠ [] ∧ payload.length ≤ maxData ∧ s.closeQueued = false ∧
      s.shutdownSent = false
  | .shutdownGate => s.writeShutdown = true ∧ s.outbound = []
  | .sendShutdown => s.writeShutdown = true ∧ s.outbound = [] ∧ s.closeQueued = false ∧
      s.shutdownSent = false
  | .shutdownSent => s.writeShutdown = true ∧ s.outbound = [] ∧ s.shutdownSent = false
  | .closeGate _ => s.dropped = true
  | .sendClose _ => s.dropped = true ∧ s.closeQueued = true
  | .emit true | .done true => s.closeQueued = true
  | .emit false | .done false => s.remoteClosed = true
  | .killed => s.closeQueued = true

structure Sound (maxData window : ℕ) (s : Stream) : Prop where
  capacity : s.capacity = window
  maximum : s.peerCredit.maximum = window
  pc : s.PcSound maxData
  publishes : ∀ credit, s.creditPc = .publish credit → 0 < credit ∧ s.closeQueued = false
  credit : s.receiveCredit + s.inbound.length + s.returnedCredit + s.creditPc.owed = window
  gates : s.outPc.holdsGate = true → s.creditPc.holdsGates = false ∧ s.driverGate = false
  driver_gate : s.driverGate = true → s.creditPc.holdsGates = false ∧ s.closeQueued = true ∧
    s.remoteClosed = true
  closed : s.closeQueued = true → s.alive = false
  closer : s.closeQueued = true → s.remoteClosed = true ∨ s.outPc.closing = true
  shutdown : s.shutdownSent = true → s.writeShutdown = true ∧ s.outbound = []
  drains : s.alive = true → s.drained ++ s.outbound = s.accepted
  prefixed : s.drained <+: s.accepted
  complete : s.hasShut = true → s.drained = s.accepted
  window_open : s.alive = true → s.peerCredit.closed = false

theorem sound_new (maxData window : ℕ) : (Stream.new window).Sound maxData window := by
  constructor <;> simp [Stream.new, CreditWindow.new, PcSound, CreditPc.owed, OutboundPc.holdsGate,
    alive, hasShut, OutboundPc.shutting]

/- The CLOSE has been committed and is not in the worker's hand any more. -/
def Over (s : Stream) : Prop := s.closeQueued = true ∧ s.outPc.holdsGate = false

def Retired (s : Stream) : Prop := s.aborted = true → s.Over

theorem Sound.moveOut (hs : s.Sound maxData window) (pc : OutboundPc)
    (hpc : PcSound maxData { s with outPc := pc })
    (hgate : pc.holdsGate = true → s.sendGateFree = true ∨ s.outPc.holdsGate = true)
    (hcl : s.outPc.closing = true → pc.closing = true)
    (hshut : pc.shutting = true → s.drained = s.accepted) :
    Sound maxData window { s with outPc := pc } := by
  refine { hs with pc := hpc, gates := ?_, closer := ?_, complete := ?_ }
  · intro hg
    rcases hgate hg with hfree | hheld
    · simp only [sendGateFree, Bool.and_eq_true, Bool.not_eq_true'] at hfree
      exact ⟨hfree.1.2, hfree.2⟩
    · exact hs.gates hheld
  · intro hq
    rcases hs.closer hq with hr | hc
    · exact .inl hr
    · exact .inr (hcl hc)
  · intro hsh
    simp only [hasShut, Bool.or_eq_true] at hsh
    rcases hsh with hsent | hpc'
    · exact hs.complete (by simp [hasShut, hsent])
    · exact hshut hpc'

theorem sendGateFree_iff : s.sendGateFree = true ↔
    s.outPc.holdsGate = false ∧ s.creditPc.holdsGates = false ∧ s.driverGate = false := by
  simp [sendGateFree, and_assoc]

theorem alive_iff : s.alive = true ↔ s.dropped = false ∧ s.remoteClosed = false := by
  simp [alive]

/- The transitions of `outbound_worker`, with the checks each of them has passed. -/
inductive OutboundMove (maxData id : ℕ) (s : Stream) : Stream → Effect → Prop where
  | stop (hat : s.outPc = .select) (hr : s.remoteClosed = true) :
      OutboundMove maxData id s { s with outPc := .emit false } .none
  | leave (hat : s.outPc = .select) (hd : s.dropped = true) :
      OutboundMove maxData id s { s with outPc := .closeGate s.closeReason } .none
  | want (hat : s.outPc = .select) (ho : s.outbound ≠ []) :
      OutboundMove maxData id s { s with outPc := .takeCredit (min s.outbound.length maxData) } .none
  | shut (hat : s.outPc = .select) (ho : s.outbound = []) (hw : s.writeShutdown = true) :
      OutboundMove maxData id s { s with outPc := .shutdownGate } .none
  | barred {wanted : ℕ} (hat : s.outPc = .takeCredit wanted) (hc : s.peerCredit.closed = true) :
      OutboundMove maxData id s { s with outPc := .select } .none
  | take {wanted : ℕ} (hat : s.outPc = .takeCredit wanted) (ha : s.peerCredit.available ≠ 0) :
      OutboundMove maxData id s { s with
        outPc := .dataGate (min s.peerCredit.available wanted)
        peerCredit := { s.peerCredit with
          available := s.peerCredit.available - min s.peerCredit.available wanted } } .none
  | lost {credit : ℕ} (hat : s.outPc = .dataGate credit)
      (hl : s.alive = false ∨ s.outbound.take credit = []) :
      OutboundMove maxData id s { s with outPc := .select } .none
  | data {credit : ℕ} (hat : s.outPc = .dataGate credit) (hg : s.sendGateFree = true)
      (hl : s.alive = true) (hp : s.outbound.take credit ≠ []) :
      OutboundMove maxData id s { s with
        outPc := .sendData (s.outbound.take credit)
        outbound := s.outbound.drop credit
        drained := s.drained ++ s.outbound.take credit } .none
  | dataPushed {payload : Bytes} (hat : s.outPc = .sendData payload) :
      OutboundMove maxData id s { s with outPc := .dataSent payload.length }
        (.push (.data id payload))
  | counted {count : ℕ} (hat : s.outPc = .dataSent count) :
      OutboundMove maxData id s
        { s with outPc := .select, pendingOutbound := s.pendingOutbound - count } .none
  | shutdown (hat : s.outPc = .shutdownGate) (hg : s.sendGateFree = true) (hl : s.alive = true)
      (hs : s.shutdownSent = false) :
      OutboundMove maxData id s { s with outPc := .sendShutdown } .none
  | unshut (hat : s.outPc = .shutdownGate) :
      OutboundMove maxData id s { s with outPc := .select } .none
  | shutdownPushed (hat : s.outPc = .sendShutdown) :
      OutboundMove maxData id s { s with outPc := .shutdownSent } (.push (.shutdownWrite id))
  | marked (hat : s.outPc = .shutdownSent) :
      OutboundMove maxData id s { s with outPc := .select, shutdownSent := true } .none
  | closedBefore {reason : CloseReason} (hat : s.outPc = .closeGate reason)
      (hq : s.closeQueued = true) : OutboundMove maxData id s { s with outPc := .emit false } .none
  | close {reason : CloseReason} (hat : s.outPc = .closeGate reason) (hg : s.sendGateFree = true)
      (hq : s.closeQueued = false) :
      OutboundMove maxData id s { s with outPc := .sendClose reason, closeQueued := true } .none
  | closePushed {reason : CloseReason} (hat : s.outPc = .sendClose reason) :
      OutboundMove maxData id s { s with outPc := .emit true } (.push (.close id reason))
  | emitted {queued : Bool} (hat : s.outPc = .emit queued) :
      OutboundMove maxData id s { s with outPc := .done queued }
        (.event (if queued then .localCloseQueued id else .stopped id))

theorem outboundStep_cases (h : s.outboundStep maxData id = some (s', eff)) :
    OutboundMove maxData id s s' eff := by
  unfold outboundStep at h
  split at h
  · rename_i hat
    split at h
    · rename_i hr
      cases h
      exact .stop hat hr
    · split at h
      · rename_i hd
        cases h
        exact .leave hat hd
      · split at h
        · rename_i ho
          cases h
          exact .want hat ho
        · rename_i ho
          split at h
          · rename_i hw
            cases h
            simp only [Bool.and_eq_true] at hw
            exact .shut hat (not_not.mp ho) hw.1
          · cases h
  · rename_i hat
    split at h
    · rename_i hc
      cases h
      exact .barred hat hc
    · split at h
      · rename_i ha
        cases h
        exact .take hat ha
      · cases h
  · rename_i hat
    split at h
    · rename_i hg
      split at h
      · rename_i hl
        cases h
        refine .lost hat (.inl ?_)
        simpa [alive, ← Bool.not_or] using hl
      · rename_i hl
        simp only at h
        split at h
        · rename_i hp
          cases h
          exact .lost hat (.inr hp)
        · rename_i hp
          cases h
          refine .data hat hg ?_ hp
          simpa [alive, ← Bool.not_or] using hl
    · cases h
  · rename_i hat
    cases h
    exact .dataPushed hat
  · rename_i hat
    cases h
    exact .counted hat
  · rename_i hat
    split at h
    · rename_i hg
      split at h
      · rename_i hgo
        cases h
        simp only [Bool.and_eq_true, Bool.not_eq_true'] at hgo
        exact .shutdown hat hg (alive_iff.mpr ⟨hgo.1.1.2, hgo.1.1.1⟩) hgo.2
      · cases h
        exact .unshut hat
    · cases h
  · rename_i hat
    cases h
    exact .shutdownPushed hat
  · rename_i hat
    cases h
    exact .marked hat
  · rename_i hat
    split at h
    · rename_i hg
      split at h
      · rename_i hq
        cases h
        exact .closedBefore hat hq
      · rename_i hq
        cases h
        exact .close hat hg (by simpa using hq)
    · cases h
  · rename_i hat
    cases h
    exact .closePushed hat
  · rename_i hat
    cases h
    exact .emitted hat
  · cases h
  · cases h

/- The transitions of `credit_worker`. -/
inductive CreditMove (id : ℕ) (s : Stream) : Stream → Effect → Prop where
  | stop (hat : s.creditPc = .check) : CreditMove id s { s with creditPc := .done } .none
  | want (hat : s.creditPc = .check) : CreditMove id s { s with creditPc := .reserve } .none
  | reserved (hat : s.creditPc = .reserve) : CreditMove id s { s with creditPc := .gate } .reserve
  | entered (hat : s.creditPc = .gate) (hg : s.sendGateFree = true) :
      CreditMove id s { s with creditPc := .take } .none
  | released (pc : CreditPc) (hat : s.creditPc = .take) (hpc : pc = .done ∨ pc = .check) :
      CreditMove id s { s with creditPc := pc } .release
  | credit (hat : s.creditPc = .take) (hl : s.alive = true) (hr : s.returnedCredit ≠ 0) :
      CreditMove id s { s with creditPc := .publish s.returnedCredit, returnedCredit := 0 } .none
  | published {credit : ℕ} (hat : s.creditPc = .publish credit) :
      CreditMove id s { s with creditPc := .update credit } (.publish (.windowUpdate id credit))
  | overflow {credit : ℕ} (hat : s.creditPc = .update credit)
      (ho : 2 ^ 32 ≤ s.receiveCredit + credit ∨ s.capacity < s.receiveCredit + credit) :
      CreditMove id s { s with creditPc := .done } .none
  | updated {credit : ℕ} (hat : s.creditPc = .update credit) :
      CreditMove id s
        { s with creditPc := .check, receiveCredit := s.receiveCredit + credit } .none

theorem creditStep_cases (h : s.creditStep id = some (s', eff)) : CreditMove id s s' eff := by
  unfold creditStep at h
  split at h
  · rename_i hat
    split at h
    · cases h
      exact .stop hat
    · split at h
      · cases h
        exact .want hat
      · cases h
  · rename_i hat
    cases h
    exact .reserved hat
  · rename_i hat
    split at h
    · rename_i hg
      cases h
      exact .entered hat hg
    · cases h
  · rename_i hat
    split at h
    · cases h
      exact .released _ hat (.inl rfl)
    · rename_i hl
      split at h
      · rename_i hr
        cases h
        refine .credit hat ?_ hr
        simpa [alive, ← Bool.not_or] using hl
      · cases h
        exact .released _ hat (.inr rfl)
  · rename_i hat
    cases h
    exact .published hat
  · rename_i hat
    split at h
    · rename_i ho
      cases h
      exact .overflow hat (by simpa using ho)
    · cases h
      exact .updated hat
  · cases h

theorem Sound.open_of_alive (hs : s.Sound maxData window) (hl : s.alive = true) :
    s.closeQueued = false := by
  by_contra hq
  have := hs.closed (by simpa using hq)
  rw [hl] at this
  cases this

theorem Sound.outbound (hs : s.Sound maxData window) (hd : 0 < maxData)
    (h : OutboundMove maxData id s s' eff) : s'.Sound maxData window := by
  have hpc := hs.pc
  unfold PcSound at hpc
  cases h with
  | stop hat hr | leave hat hdr | shut hat ho hw | barred hat hc | lost hat hl | dataPushed hat
  | unshut | closePushed => apply hs.moveOut <;> simp_all [PcSound]
  | want => apply hs.moveOut <;> simp_all [PcSound, length_pos_iff]
  | take hat ha =>
    rename_i wanted
    rw [hat] at hpc
    have hmove := hs.moveOut (.dataGate (min s.peerCredit.available wanted))
      ⟨by omega, by omega, fun hal => by have := hpc.2.2 hal; show min _ _ ≤ s.outbound.length; omega⟩
      (by simp) (by simp [hat]) (by simp)
    exact { hmove with }
  | data hat hg hl hp =>
    rename_i credit
    rw [hat] at hpc
    obtain ⟨-, hcr, hdr⟩ := sendGateFree_iff.mp hg
    have hopen := hs.open_of_alive hl
    have hunsent : s.shutdownSent = false := by
      by_contra hsent
      have := (hs.shutdown (by simpa using hsent)).2
      simp [this] at hp
    refine ⟨hs.capacity, hs.maximum, ?_, hs.publishes, hs.credit, fun _ => ⟨hcr, hdr⟩,
      hs.driver_gate, hs.closed, ?_, ?_, ?_, ?_, ?_, hs.window_open⟩
    · refine ⟨hp, ?_, hopen, hunsent⟩
      have := length_take_le credit s.outbound
      omega
    · intro hq
      simp [hopen] at hq
    · intro hsent
      simp [hunsent] at hsent
    · intro _
      rw [append_assoc, take_append_drop]
      exact hs.drains hl
    · rw [← hs.drains hl]
      exact prefix_append_right_inj _ |>.mpr ( take_prefix _ _)
    · intro hsh
      simp [hasShut, hunsent] at hsh
  | counted hat =>
    have hmove := hs.moveOut .select trivial (by simp) (by simp [hat]) (by simp)
    exact { hmove with }
  | shutdown hat hg hl hu =>
    rw [hat] at hpc
    have hall : s.drained = s.accepted := by
      have := hs.drains hl
      rwa [hpc.2, append_nil] at this
    have hopen := hs.open_of_alive hl
    exact hs.moveOut .sendShutdown ⟨hpc.1, hpc.2, hopen, hu⟩ (fun _ => .inl hg) (by simp [hat])
      (fun _ => hall)
  | shutdownPushed hat =>
    have hall : s.drained = s.accepted := hs.complete (by simp [hasShut, hat])
    apply hs.moveOut <;> simp_all [PcSound]
  | marked hat =>
    rw [hat] at hpc
    have hall : s.drained = s.accepted := hs.complete (by simp [hasShut, hat])
    have hmove := hs.moveOut .select trivial (by simp) (by simp [hat]) (by simp)
    exact { hmove with
      pc := trivial
      shutdown := fun _ => ⟨hpc.1, hpc.2.1⟩
      complete := fun _ => hall }
  | closedBefore hat hq =>
    have hr : s.remoteClosed = true := (hs.closer hq).resolve_right (by simp [hat])
    apply hs.moveOut <;> simp_all [PcSound]
  | close hat hg hq =>
    rw [hat] at hpc
    obtain ⟨-, hcr, hdr⟩ := sendGateFree_iff.mp hg
    refine ⟨hs.capacity, hs.maximum, ⟨hpc, rfl⟩, ?_, hs.credit, fun _ => ⟨hcr, hdr⟩, ?_, ?_, ?_,
      hs.shutdown, hs.drains, hs.prefixed, ?_, hs.window_open⟩
    · intro credit hpub
      have hpub' : s.creditPc = .publish credit := hpub
      simp [hpub'] at hcr
    · intro hdg
      have hdg' : s.driverGate = true := hdg
      simp [hdg'] at hdr
    · intro _
      simp [alive, hpc]
    · intro _
      exact .inr rfl
    · intro hsh
      exact hs.complete (by simpa [hasShut, hat] using hsh)
  | emitted hat =>
    rename_i queued
    apply hs.moveOut <;> cases queued <;> simp_all [PcSound]

theorem Sound.moveCredit (hs : s.Sound maxData window) (pc : CreditPc) (receive returned : ℕ)
    (hpub : ∀ credit, pc = .publish credit → 0 < credit ∧ s.closeQueued = false)
    (hcr : receive + s.inbound.length + returned + pc.owed = window)
    (hgate : pc.holdsGates = true → s.sendGateFree = true ∨ s.creditPc.holdsGates = true) :
    Sound maxData window
      { s with creditPc := pc, receiveCredit := receive, returnedCredit := returned } := by
  refine { hs with publishes := hpub, credit := hcr, gates := ?_, driver_gate := ?_ }
  · intro hout
    obtain ⟨hfree, hdr⟩ := hs.gates hout
    refine ⟨?_, hdr⟩
    by_contra hg
    rcases hgate (by simpa using hg) with hf | hf
    · rw [(sendGateFree_iff.mp hf).1] at hout
      cases hout
    · rw [hfree] at hf
      cases hf
  · intro hdg
    obtain ⟨hfree, hrest⟩ := hs.driver_gate hdg
    refine ⟨?_, hrest⟩
    by_contra hg
    rcases hgate (by simpa using hg) with hf | hf
    · have := (sendGateFree_iff.mp hf).2.2
      rw [this] at hdg
      cases hdg
    · rw [hfree] at hf
      cases hf

theorem Sound.creditWorker (hs : s.Sound maxData window) (hw : window < 2 ^ 32)
    (h : CreditMove id s s' eff) : s'.Sound maxData window := by
  have hc := hs.credit
  cases h with
  | stop hat =>
    exact hs.moveCredit .done s.receiveCredit s.returnedCredit (by simp) (by simpa [hat] using hc) (by simp)
  | want hat =>
    exact hs.moveCredit .reserve s.receiveCredit s.returnedCredit (by simp) (by simpa [hat] using hc)
      (by simp)
  | reserved hat =>
    exact hs.moveCredit .gate s.receiveCredit s.returnedCredit (by simp) (by simpa [hat] using hc)
      (by simp)
  | entered hat hg =>
    exact hs.moveCredit .take s.receiveCredit s.returnedCredit (by simp) (by simpa [hat] using hc)
      (fun _ => .inl hg)
  | released pc hat hpc =>
    rcases hpc with rfl | rfl
    · exact hs.moveCredit .done s.receiveCredit s.returnedCredit (by simp) (by simpa [hat] using hc)
        (by simp)
    · exact hs.moveCredit .check s.receiveCredit s.returnedCredit (by simp) (by simpa [hat] using hc)
        (by simp)
  | credit hat hl hr =>
    refine hs.moveCredit (.publish s.returnedCredit) s.receiveCredit 0 ?_ ?_ ?_
    · intro credit hcr
      cases hcr
      exact ⟨Nat.pos_of_ne_zero hr, hs.open_of_alive hl⟩
    · simp only [hat, CreditPc.owed] at hc ⊢
      omega
    · exact fun _ => .inr (by simp [hat])
  | published hat =>
    exact hs.moveCredit (.update _) s.receiveCredit s.returnedCredit (by simp) (by simpa [hat] using hc)
      (fun _ => .inr (by simp [hat]))
  | overflow hat ho =>
    -- the credit given back never exceeds the window
    simp only [hat, CreditPc.owed] at hc
    have := hs.capacity
    omega
  | updated hat =>
    refine hs.moveCredit .check _ s.returnedCredit (by simp) ?_ (by simp)
    simp only [hat, CreditPc.owed] at hc ⊢
    omega

inductive OwnerMove (s : Stream) : Stream → Prop where
  | same : OwnerMove s s
  | read (count : ℕ) (hle : count ≤ s.inbound.length) : OwnerMove s { s with
      inbound := s.inbound.drop count
      returnedCredit := s.returnedCredit + count
      delivered := s.delivered ++ s.inbound.take count }
  | write (bs : Bytes) (hl : s.alive = true) (hw : s.writeShutdown = false) : OwnerMove s { s with
      outbound := s.outbound ++ bs
      pendingOutbound := s.pendingOutbound + bs.length
      accepted := s.accepted ++ bs }
  | shutdown : OwnerMove s { s with writeShutdown := true }
  | reason (reason : CloseReason) : OwnerMove s { s with closeReason := reason }
  | drop : OwnerMove s s.dropLocal

theorem pollRead_move (s : Stream) (n : ℕ) : OwnerMove s (s.pollRead n).2 := by
  unfold pollRead
  split
  · exact .same
  · split
    · exact .read _ (Nat.min_le_right _ _)
    · split
      · exact .same
      · split <;> exact .same

theorem pollWrite_move (s : Stream) (buffer : Bytes) : OwnerMove s (s.pollWrite buffer).2 := by
  unfold pollWrite
  split
  · exact .same
  · split
    · exact .same
    · rename_i hl
      split
      · exact .same
      · rename_i hw
        split
        · exact .same
        · have halive : s.alive = true := by
            simp only [Bool.or_eq_true, not_or, Bool.not_eq_true] at hl
            exact alive_iff.mpr ⟨hl.2, hl.1⟩
          have hmove := OwnerMove.write
            (buffer.take (min (s.capacity - s.outbound.length) buffer.length)) halive
            (by simpa using hw)
          simpa [length_take] using hmove

theorem pollShutdown_move (s : Stream) : OwnerMove s s.pollShutdown.2 := by
  unfold pollShutdown
  split
  · exact .same
  · split
    · exact .same
    · split <;> exact .shutdown

theorem setCloseReason_move (s : Stream) (reason : CloseReason) :
    OwnerMove s (s.setCloseReason reason) := by
  unfold setCloseReason
  split
  · exact .reason reason
  · exact .same

inductive StepCase (maxData id : ℕ) (s : Stream) : StreamAct → Stream → Effect → Prop where
  | call {act : StreamAct} {s' : Stream} (h : OwnerMove s s') : StepCase maxData id s act s' .none
  | outbound {s' : Stream} {eff : Effect} (h : OutboundMove maxData id s s' eff) :
      StepCase maxData id s .outbound s' eff
  | credit {s' : Stream} {eff : Effect} (h : CreditMove id s s' eff) :
      StepCase maxData id s .credit s' eff
  | reapOutbound (hab : s.aborted = true) (hat : OutboundPc.atAwait s.outPc = true) :
      StepCase maxData id s .reapOutbound { s with outPc := .killed } .none
  | reapCredit {eff : Effect} (hat : s.creditPc = .check ∨ s.creditPc = .reserve ∨ s.creditPc = .gate)
      (he : eff = .none ∨ eff = .release) :
      StepCase maxData id s .reapCredit { s with creditPc := .done } eff

theorem step_cases (h : s.step maxData id act = some (s', eff)) :
    StepCase maxData id s act s' eff := by
  cases act with
  | read n =>
    simp only [Stream.step] at h
    split at h <;> cases h
    exact .call (s.pollRead_move n)
  | write buffer =>
    simp only [Stream.step] at h
    split at h <;> cases h
    exact .call (s.pollWrite_move buffer)
  | shutdown =>
    simp only [Stream.step] at h
    split at h <;> cases h
    exact .call s.pollShutdown_move
  | setReason reason =>
    simp only [Stream.step] at h
    split at h <;> cases h
    exact .call (s.setCloseReason_move reason)
  | drop =>
    simp only [Stream.step] at h
    split at h <;> cases h
    exact .call .drop
  | outbound => exact .outbound (outboundStep_cases h)
  | credit => exact .credit (creditStep_cases h)
  | reapOutbound =>
    simp only [Stream.step, Stream.reapOutbound] at h
    split at h
    · rename_i hab
      cases h
      simp only [Bool.and_eq_true] at hab
      exact .reapOutbound hab.1 hab.2
    · cases h
  | reapCredit =>
    simp only [Stream.step, Stream.reapCredit] at h
    split at h
    · split at h
      all_goals cases h
      · exact .reapCredit (.inl ‹_›) (.inl rfl)
      · exact .reapCredit (.inr (.inl ‹_›)) (.inl rfl)
      · exact .reapCredit (.inr (.inr ‹_›)) (.inr rfl)
    · cases h

theorem Sound.write (hs : s.Sound maxData window) (bs : Bytes) (hl : s.alive = true)
    (hw : s.writeShutdown = false) :
    Sound maxData window { s with
      outbound := s.outbound ++ bs
      pendingOutbound := s.pendingOutbound + bs.length
      accepted := s.accepted ++ bs } := by
  have hunsent : s.hasShut = false := by
    by_contra hsh
    simp only [hasShut, Bool.not_eq_false, Bool.or_eq_true] at hsh
    rcases hsh with hsent | hpc
    · rw [(hs.shutdown hsent).1] at hw
      cases hw
    · have := hs.pc
      unfold PcSound at this
      cases hat : s.outPc <;> simp_all
  refine { hs with pc := ?_, shutdown := ?_, drains := ?_, prefixed := ?_, complete := ?_ }
  · -- only a longer outbound buffer is left to check where a worker relies on it
    have hpc := hs.pc
    unfold PcSound at hpc ⊢
    cases hat : s.outPc with
    | takeCredit | dataGate =>
      simp only [hat] at hpc ⊢
      refine ⟨hpc.1, hpc.2.1, fun _ => ?_⟩
      have := hpc.2.2 hl
      simp only [length_append]
      omega
    | emit queued | done queued => cases queued <;> simp_all
    | _ => simp_all
  · intro hsent
    simp [hasShut] at hunsent
    have hsent' : s.shutdownSent = true := hsent
    simp [hunsent.1] at hsent'
  · intro _
    rw [← append_assoc, hs.drains hl]
  · exact hs.prefixed.trans (prefix_append _ _)
  · intro hsh
    have hsh' : s.hasShut = true := hsh
    rw [hunsent] at hsh'
    cases hsh'

theorem Sound.callShutdown (hs : s.Sound maxData window) :
    Sound maxData window { s with writeShutdown := true } := by
  refine { hs with pc := ?_, shutdown := fun hsent => ⟨rfl, (hs.shutdown hsent).2⟩ }
  have hpc := hs.pc
  unfold PcSound at hpc ⊢
  cases hat : s.outPc with
  | emit queued | done queued => cases queued <;> simp_all
  | takeCredit | dataGate => simpa [hat, alive] using hpc
  | _ => simp_all

section
variable (hs : s.Sound maxData window)
include hs

/- Dropping the handle and the end of the remote side both empty `outbound` and
close the credit window; afterwards the stream is not alive. -/
theorem Sound.silence (dropped remoteClosed eof : Bool) (failure : Option StreamFailure)
    (hd : s.dropped = true → dropped = true) (hr : s.remoteClosed = true → remoteClosed = true)
    (hl : dropped = true ∨ remoteClosed = true) :
    Sound maxData window { s with
      dropped := dropped
      remoteClosed := remoteClosed
      inboundEof := eof
      failure := failure
      outbound := []
      pendingOutbound := 0
      peerCredit := s.peerCredit.close } := by
  have hdead : alive { s with dropped := dropped, remoteClosed := remoteClosed } = false := by
    rcases hl with hl | hl <;> simp [alive, hl]
  refine ⟨hs.capacity, hs.maximum, ?_, hs.publishes, hs.credit, hs.gates, ?_, fun _ => hdead, ?_,
    fun hsent => ⟨(hs.shutdown hsent).1, rfl⟩, ?_, hs.prefixed, hs.complete, ?_⟩
  · have hpc := hs.pc
    unfold PcSound at hpc ⊢
    cases hat : s.outPc with
    | emit queued | done queued => cases queued <;> simp_all
    | takeCredit | dataGate =>
      simp only [hat] at hpc ⊢
      exact ⟨hpc.1, hpc.2.1, fun hal => absurd (hdead.symm.trans hal) (by simp)⟩
    | _ => simp_all
  · intro hdg
    obtain ⟨h1, h2, h3⟩ := hs.driver_gate hdg
    exact ⟨h1, h2, hr h3⟩
  · intro hq
    rcases hs.closer hq with h | h
    · exact .inl (hr h)
    · exact .inr h
  · intro hal
    exact absurd (hdead.symm.trans hal) (by simp)
  · intro hal
    exact absurd (hdead.symm.trans hal) (by simp)

theorem Sound.dropLocal : s.dropLocal.Sound maxData window :=
  hs.silence true s.remoteClosed s.inboundEof s.failure (fun _ => rfl) id (.inl rfl)

theorem Sound.shut (failure : Option StreamFailure) :
    (s.shut failure).Sound maxData window :=
  hs.silence s.dropped true true failure id (fun _ => rfl) (.inr rfl)

theorem Sound.owner (h : OwnerMove s s') :
    s'.Sound maxData window := by
  cases h with
  | same => exact hs
  | read =>
    refine { hs with credit := ?_ }
    have := hs.credit
    simp only [length_drop]
    omega
  | write bs hl hw => exact hs.write bs hl hw
  | shutdown => exact hs.callShutdown
  | reason =>
    exact { hs with }
  | drop => exact hs.dropLocal

theorem Sound.step (hd : 0 < maxData) (hw : window < 2 ^ 32)
    (hr : act.isWorker = true → s.Retired) (h : s.step maxData id act = some (s', eff)) :
    s'.Sound maxData window := by
  have hcase := step_cases h
  cases hcase with
  | call hm => exact hs.owner hm
  | outbound hm => exact hs.outbound hd hm
  | credit hm => exact hs.creditWorker hw hm
  | reapOutbound hab hat =>
    have hq := (hr rfl hab).1
    apply hs.moveOut <;> simp_all [PcSound]
  | reapCredit hat he =>
    have hc := hs.credit
    refine hs.moveCredit .done s.receiveCredit s.returnedCredit (by simp) ?_ (by simp)
    rcases hat with hat | hat | hat <;> simpa [hat] using hc

end

/- What the driver does to a stream. -/

theorem pushInbound_ok (h : s.pushInbound payload = .ok s') :
    s.inboundEof = false ∧ s.remoteClosed = false ∧ payload.length ≤ s.receiveCredit ∧
    s' = { s with
      receiveCredit := s.receiveCredit - payload.length
      inbound := s.inbound ++ payload } := by
  unfold pushInbound at h
  split at h
  · cases h
  rename_i hopen
  split at h
  · cases h
  split at h
  · cases h
  cases h
  simp only [Bool.or_eq_true, not_or, Bool.not_eq_true] at hopen
  exact ⟨hopen.1, hopen.2, by omega, rfl⟩

theorem finishInbound_ok (h : s.finishInbound = .ok s') :
    s.inboundEof = false ∧ s' = { s with inboundEof := true } := by
  unfold finishInbound at h
  split at h
  · cases h
  rename_i he
  cases h
  exact ⟨by simpa using he, rfl⟩

theorem addCredit_ok {credit : ℕ} (h : s.addCredit credit = .ok s') :
    s' = { s with peerCredit := { s.peerCredit with
      available := s.peerCredit.available + credit } } := by
  unfold addCredit CreditWindow.add at h
  split at h
  · rename_i hw
    cases h
    split at hw
    · cases hw
    split at hw
    · cases hw
    split at hw
    · cases hw
    · cases hw
      rfl
  · cases h

section
variable (hs : s.Sound maxData window)
include hs

theorem Sound.push (h : s.pushInbound payload = .ok s') : s'.Sound maxData window := by
  obtain ⟨-, -, hle, rfl⟩ := pushInbound_ok h
  refine { hs with credit := ?_ }
  have := hs.credit
  simp only [length_append]
  omega

theorem Sound.finish (h : s.finishInbound = .ok s') :
    s'.Sound maxData window := by
  obtain ⟨-, rfl⟩ := finishInbound_ok h
  exact { hs with }

theorem Sound.addCredit {credit : ℕ} (h : s.addCredit credit = .ok s') :
    s'.Sound maxData window := by
  rw [addCredit_ok h]
  exact { hs with }

theorem Sound.abort :
    Sound maxData window { s with aborted := true } :=
  { hs with }

theorem Sound.takeClose (hg : s.sendGateFree = true) (hr : s.remoteClosed = true) :
    Sound maxData window { s with closeQueued := true, driverGate := true } := by
  obtain ⟨hout, hcr, -⟩ := sendGateFree_iff.mp hg
  refine { hs with
    pc := ?_
    publishes := ?_
    gates := ?_
    driver_gate := fun _ => ⟨hcr, rfl, hr⟩
    closed := fun _ => by simp [alive, hr]
    closer := fun _ => .inl hr }
  · have hpc := hs.pc
    unfold PcSound at hpc ⊢
    cases hat : s.outPc with
    | emit queued | done queued => cases queued <;> simp_all
    | takeCredit | dataGate => simpa [hat, alive] using hpc
    | _ => simp_all
  · intro credit hp
    have hp' : s.creditPc = .publish credit := hp
    simp [hp'] at hcr
  · intro ho
    have ho' : s.outPc.holdsGate = true := ho
    rw [hout] at ho'
    cases ho'

theorem Sound.giveClose :
    Sound maxData window { s with driverGate := false, aborted := true } := by
  refine { hs with gates := fun ho => ⟨(hs.gates ho).1, rfl⟩, driver_gate := ?_ }
  intro hdg
  cases hdg

end

end Stream

end Alighieri.Rdp
