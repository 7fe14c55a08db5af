import Alighieri.Rdp.StreamSound

/-!
# What a step of a stream does to the outside

A frame counts as committed from the moment a worker holds it with the gate (`hand`), so that a
step commits at most one frame.
-/

namespace Alighieri.Rdp
open List Effect

variable {id maxData window : ℕ} {s s' : Stream} {act : StreamAct} {eff : Effect}

namespace Stream

theorem Over.step (hs : s.Sound maxData window) (ho : s.Over)
    (h : s.step maxData id act = some (s', eff)) : s'.Over := by
  obtain ⟨hq, hg⟩ := ho
  have hdead : s.alive = false := hs.closed hq
  have hcase := step_cases h
  cases hcase with
  | call hm | credit hm => cases hm <;> exact ⟨hq, hg⟩
  | outbound hm => cases hm <;> simp_all [Over]
  | reapOutbound => exact ⟨hq, rfl⟩
  | reapCredit => exact ⟨hq, hg⟩

/-- What a step commits, and what it has checked for that. -/
inductive Commit (maxData id : ℕ) (s : Stream) : List Frame → Bool → Bool → Prop where
  | nothing : Commit maxData id s [] s.closeQueued s.hasShut
  | data (payload : Bytes) (hp : payload ≠ []) (hle : payload.length ≤ maxData)
      (hl : s.alive = true) (hs : s.hasShut = false) :
      Commit maxData id s [.data id payload] s.closeQueued s.hasShut
  | shutdown (hl : s.alive = true) (hs : s.hasShut = false) :
      Commit maxData id s [.shutdownWrite id] s.closeQueued true
  | credit (credit : ℕ) (hc : 0 < credit) (hl : s.alive = true) :
      Commit maxData id s [.windowUpdate id credit] s.closeQueued s.hasShut
  | close (reason : CloseReason) (hd : s.dropped = true) (hq : s.closeQueued = false) :
      Commit maxData id s [.close id reason] true s.hasShut

structure Moved (maxData id : ℕ) (s s' : Stream) (out new : List Frame) : Prop where
  commit : Commit maxData id s new s'.closeQueued s'.hasShut
  hand : out ++ s'.hand id = s.hand id ++ new
  held_le : s'.held + (dataBytes new).length ≤ s.held
  held_eq : s'.alive = true → s'.held + (dataBytes new).length = s.held
  kept : s'.kept + creditSum new = s.kept
  drained : s'.drained = s.drained ++ dataBytes new
  received : s'.delivered ++ s'.inbound = s.delivered ++ s.inbound
  eof : s'.inboundEof = s.inboundEof
  remote : s'.remoteClosed = s.remoteClosed
  dropped : s.dropped = true → s'.dropped = true
  aborted : s'.aborted = s.aborted
  driver : s'.driverGate = s.driverGate

/- The moves of the outbound worker: what it does not touch is as it was. -/
theorem Moved.out {pc : OutboundPc} {peer : CreditWindow} {outbound drained : Bytes}
    {queued sent : Bool} {pending : ℕ} {out new : List Frame}
    (hc : Commit maxData id s new queued (sent || pc.shutting))
    (hh : out ++ (pc.hand id ++ s.creditPc.hand id) =
      s.outPc.hand id ++ s.creditPc.hand id ++ new)
    (held : peer.available + pc.taken + (dataBytes new).length = s.held)
    (hd : drained = s.drained ++ dataBytes new) (hk : creditSum new = 0) :
    Moved maxData id s { s with
      outPc := pc, peerCredit := peer, outbound := outbound, drained := drained
      closeQueued := queued, shutdownSent := sent, pendingOutbound := pending } out new :=
  ⟨hc, hh, Nat.le_of_eq held, fun _ => held, congrArg (s.kept + ·) hk, hd, rfl, rfl, rfl,
    fun hd => hd, rfl, rfl⟩

theorem Commit.calm {new : List Frame} {queued : Bool} (hpc : s.outPc.shutting = false)
    (hc : Commit maxData id s new queued s.hasShut) :
    Commit maxData id s new queued (s.shutdownSent || false) := by
  rw [hasShut, hpc] at hc
  exact hc

theorem Moved.moveOut (pc : OutboundPc) (pending : ℕ) (out : List Frame)
    (hh : out ++ pc.hand id ++ s.creditPc.hand id = s.outPc.hand id ++ s.creditPc.hand id)
    (ht : pc.taken = s.outPc.taken) (hsh : pc.shutting = s.outPc.shutting) :
    Moved maxData id s { s with outPc := pc, pendingOutbound := pending } out [] := by
  refine .out ?_ ?_ ?_ (append_nil _).symm rfl
  · rw [hsh]
    exact .nothing
  · rw [append_nil, ← append_assoc]
    exact hh
  · rw [ht]
    rfl

theorem Sound.outbound_moved (hs : s.Sound maxData window) (h : OutboundMove maxData id s s' eff) :
    ∃ new, Moved maxData id s s' eff.frames new := by
  have hpc := hs.pc
  unfold PcSound at hpc
  -- while the outbound worker holds the gate the credit worker has nothing in its hand
  have hcredit : s.creditPc.holdsGates = false → s.creditPc.hand id = [] := by
    intro hg
    cases hat : s.creditPc <;> simp_all
  cases h with
  | stop hat | leave hat | want hat | shut hat | barred hat | dataPushed hat | counted hat
  | unshut hat | shutdownPushed hat | closedBefore hat | closePushed hat | emitted hat =>
    exact ⟨[], .moveOut _ _ _ (by simp [hat, frames]) (by simp [hat]) (by simp [hat])⟩
  | take hat ha =>
    refine ⟨[], .out (.calm (by simp [hat]) .nothing) ?_ ?_ (append_nil _).symm rfl⟩
    · simp [hat, frames]
    · simp only [held, hat, OutboundPc.taken, dataBytes_nil, length_nil]
      omega
  | lost hat hl =>
    rename_i credit
    rw [hat] at hpc
    refine ⟨[], ⟨.calm (by simp [hat]) .nothing, ?_, ?_, ?_, rfl, ?_, rfl, rfl, rfl, fun hd => hd, rfl,
      rfl⟩⟩
    · simp [Stream.hand, hat, frames]
    · simp [held, hat]
    · -- a live stream still has the bytes it took credit for
      intro hal
      rcases hl with hdead | hempty
      · exact absurd (hdead.symm.trans hal) (by simp)
      · have hlen := congrArg List.length hempty
        have := hpc.2.2 hal
        simp only [length_take, length_nil] at hlen
        omega
    · simp
  | data hat hg hl hp =>
    rename_i credit
    rw [hat] at hpc
    obtain ⟨-, hcr, -⟩ := sendGateFree_iff.mp hg
    have hunsent : s.shutdownSent = false := by
      by_contra hsent
      have := (hs.shutdown (by simpa using hsent)).2
      simp [this] at hp
    have hlen := hpc.2.2 hl
    have htake : (s.outbound.take credit).length = credit := by
      rw [length_take]
      omega
    refine ⟨[.data id (s.outbound.take credit)], .out (.calm (by simp [hat]) ?_) ?_ ?_ ?_ rfl⟩
    · exact .data _ hp (by omega) hl (by simp [hasShut, hat, hunsent])
    · simp only [hat, frames, hcredit hcr, OutboundPc.hand, append_nil, nil_append]
    · simp only [held, hat, OutboundPc.taken, dataBytes, flatMap_cons, flatMap_nil,
        Frame.bytes, append_nil, htake]
      omega
    · simp [dataBytes, Frame.bytes]
  | shutdown hat hg hl hu =>
    obtain ⟨-, hcr, -⟩ := sendGateFree_iff.mp hg
    refine ⟨[.shutdownWrite id], .out ?_ ?_ ?_ ?_ rfl⟩
    · rw [OutboundPc.shutting, Bool.or_true]
      exact .shutdown hl (by simp [hasShut, hat, hu])
    · simp only [hat, frames, hcredit hcr, OutboundPc.hand, append_nil, nil_append]
    · simp [held, hat, dataBytes, Frame.bytes]
    · simp [dataBytes, Frame.bytes]
  | marked hat =>
    have hshut : s.hasShut = true := by simp [hasShut, hat]
    refine ⟨[], .out ?_ ?_ ?_ (append_nil _).symm rfl⟩
    · rw [Bool.true_or, ← hshut]
      exact .nothing
    · simp [hat, frames]
    · simp [held, hat]
  | close hat hg hq =>
    rename_i reason
    rw [hat] at hpc
    obtain ⟨-, hcr, -⟩ := sendGateFree_iff.mp hg
    refine ⟨[.close id reason], .out (.calm (by simp [hat]) (.close _ hpc hq)) ?_ ?_ ?_ rfl⟩
    · simp only [hat, frames, hcredit hcr, OutboundPc.hand, append_nil, nil_append]
    · simp [held, hat, dataBytes, Frame.bytes]
    · simp [dataBytes, Frame.bytes]

theorem Moved.moveCredit (pc : CreditPc) (receive : ℕ) (out : List Frame)
    (hh : out ++ (s.outPc.hand id ++ pc.hand id) = s.outPc.hand id ++ s.creditPc.hand id) :
    Moved maxData id s { s with creditPc := pc, receiveCredit := receive } out [] := by
  refine ⟨.nothing, ?_, Nat.le_refl _, fun _ => rfl, rfl, ?_, rfl, rfl, rfl, fun hd => hd, rfl, rfl⟩
  · simpa [Stream.hand] using hh
  · simp

theorem Sound.credit_moved (hs : s.Sound maxData window) (h : CreditMove id s s' eff) :
    ∃ new, Moved maxData id s s' eff.frames new := by
  have hout : s.creditPc.holdsGates = true → s.outPc.hand id = [] := by
    intro hg
    have hfree : s.outPc.holdsGate = false := by
      by_contra ho
      have := (hs.gates (by simpa using ho)).1
      rw [this] at hg
      cases hg
    cases hat : s.outPc <;> simp_all
  cases h with
  | stop hat | want hat | reserved hat | entered hat | overflow hat =>
    exact ⟨[], .moveCredit _ s.receiveCredit _ (by simp only [hat]; rfl)⟩
  | released pc hat hpc =>
    rcases hpc with rfl | rfl <;>
      exact ⟨[], .moveCredit _ s.receiveCredit _ (by simp only [hat]; rfl)⟩
  | credit hat hl hr =>
    have hnone := hout (by simp [hat])
    refine ⟨[.windowUpdate id s.returnedCredit], ⟨.credit _ (Nat.pos_of_ne_zero hr) hl, ?_,
      ?_, ?_, ?_, ?_, rfl, rfl, rfl, fun hd => hd, rfl, rfl⟩⟩
    · simp only [Stream.hand, hat, hnone, frames, CreditPc.hand]
      rfl
    · exact Nat.le_refl _
    · exact fun _ => rfl
    · simp [kept, creditSum, Frame.credit]
    · simp [dataBytes, Frame.bytes]
  | published hat =>
    have hnone := hout (by simp [hat])
    exact ⟨[], .moveCredit _ s.receiveCredit _ (by simp only [hat, hnone]; rfl)⟩
  | updated hat => exact ⟨[], .moveCredit _ _ _ (by simp only [hat]; rfl)⟩

theorem Moved.call (hpc : s'.outPc = s.outPc) (hcp : s'.creditPc = s.creditPc)
    (hq : s'.closeQueued = s.closeQueued) (hsent : s'.shutdownSent = s.shutdownSent)
    (hav : s'.peerCredit.available = s.peerCredit.available) (hk : s'.kept = s.kept)
    (hdr : s'.drained = s.drained) (hre : s'.delivered ++ s'.inbound = s.delivered ++ s.inbound)
    (he : s'.inboundEof = s.inboundEof) (hr : s'.remoteClosed = s.remoteClosed)
    (hd : s.dropped = true → s'.dropped = true) (hab : s'.aborted = s.aborted)
    (hdg : s'.driverGate = s.driverGate) : Moved maxData id s s' [] [] := by
  have hheld : s'.held = s.held := by simp only [held, hpc, hav]
  have hsame : s'.hasShut = s.hasShut := by simp only [hasShut, hpc, hsent]
  refine ⟨?_, ?_, Nat.le_of_eq hheld, fun _ => hheld, hk, ?_, hre, he, hr, hd, hab, hdg⟩
  · rw [hsame, hq]
    exact .nothing
  · simp only [Stream.hand, hpc, hcp, append_nil, nil_append]
  · rw [hdr, dataBytes_nil, append_nil]

/-- Every step of a sound stream commits at most one frame and loses no byte or credit
of a stream that stays alive. -/
theorem Sound.step_moved (hs : s.Sound maxData window) (hr : act.isWorker = true → s.Retired)
    (h : s.step maxData id act = some (s', eff)) : ∃ new, Moved maxData id s s' eff.frames new := by
  have hcase := step_cases h
  cases hcase with
  | call hm =>
    refine ⟨[], ?_⟩
    cases hm with
    | read =>
      refine .call rfl rfl rfl rfl rfl ?_ rfl ?_ rfl rfl (fun hd => hd) rfl rfl
      · simp only [kept, length_drop]
        omega
      · simp [append_assoc]
    | drop => exact .call rfl rfl rfl rfl rfl rfl rfl rfl rfl rfl (fun _ => rfl) rfl rfl
    | _ => exact .call rfl rfl rfl rfl rfl rfl rfl rfl rfl rfl (fun hd => hd) rfl rfl
  | outbound hm => exact hs.outbound_moved hm
  | credit hm => exact hs.credit_moved hm
  | reapOutbound hab hat =>
    obtain ⟨hq, hg⟩ := hr rfl hab
    -- the worker dies without a frame in its hand
    have hnone : s.outPc.hand id = [] := by cases hat : s.outPc <;> simp_all
    have hcalm : s.outPc.shutting = false := by cases hat : s.outPc <;> simp_all
    have hsame : hasShut { s with outPc := .killed } = s.hasShut := by
      simp only [hasShut, hcalm]
      rfl
    refine ⟨[], ⟨?_, ?_, ?_, ?_, rfl, ?_, rfl, rfl, rfl, fun hd => hd, rfl, rfl⟩⟩
    · rw [hsame]
      exact .nothing
    · simp only [Stream.hand, hnone, append_nil]
      rfl
    · exact Nat.add_le_add_left (Nat.zero_le _) _
    · intro hal
      exact absurd ((hs.closed hq).symm.trans hal) (by simp)
    · simp
  | reapCredit hat he =>
    refine ⟨[], .moveCredit _ s.receiveCredit _ ?_⟩
    rcases he with rfl | rfl <;> rcases hat with hat | hat | hat <;> simp only [hat] <;> rfl

theorem Retired.step (hs : s.Sound maxData window) (hr : s.Retired)
    (h : s.step maxData id act = some (s', eff)) : s'.Retired := by
  obtain ⟨new, hm⟩ := hs.step_moved (fun _ => hr) h
  intro hab
  exact (hr (hm.aborted ▸ hab)).step hs h

theorem step_done {queued : Bool} (hat : s.outPc = .done queued)
    (h : s.step maxData id act = some (s', eff)) : s'.outPc = .done queued ∧ eff.events = [] := by
  have hcase := step_cases h
  cases hcase with
  | call hm | credit hm => cases hm <;> exact ⟨hat, rfl⟩
  | outbound hm =>
    simp only [Stream.step, outboundStep, hat] at h
    cases hm <;> simp_all
  | reapOutbound hab hat' => simp [hat, OutboundPc.atAwait] at hat'
  | reapCredit hat' he => rcases he with rfl | rfl <;> exact ⟨hat, rfl⟩

theorem step_reports (h : s.step maxData id act = some (s', eff)) {w : WorkerEvent}
    (hw : w ∈ eff.events) :
    (w = .localCloseQueued id ∧ s'.outPc = .done true) ∨
    (w = .stopped id ∧ s'.outPc = .done false) := by
  have hcase := step_cases h
  cases hcase with
  | call | reapOutbound => simp [events] at hw
  | outbound hm =>
    cases hm with
    | emitted hat =>
      rename_i queued
      cases queued
      · exact .inr ⟨by simpa [events] using hw, rfl⟩
      · exact .inl ⟨by simpa [events] using hw, rfl⟩
    | _ => simp [events] at hw
  | credit hm => cases hm <;> simp [events] at hw
  | reapCredit hat he => rcases he with rfl | rfl <;> simp [events] at hw

/- The workers queue what they have in their hands. -/
theorem step_frames (h : s.step maxData id act = some (s', eff)) {f : Frame}
    (hf : f ∈ eff.frames) :
    (∃ payload, s.outPc = .sendData payload ∧ f = .data id payload) ∨ f = .shutdownWrite id ∨
      (∃ reason, f = .close id reason) ∨
      ∃ credit, s.creditPc = .publish credit ∧ f = .windowUpdate id credit := by
  cases step_cases h with
  | call | reapOutbound => cases hf
  | outbound hm =>
    cases hm with
    | dataPushed hat => exact .inl ⟨_, hat, mem_singleton.mp hf⟩
    | shutdownPushed => exact .inr (.inl (mem_singleton.mp hf))
    | closePushed => exact .inr (.inr (.inl ⟨_, mem_singleton.mp hf⟩))
    | _ => cases hf
  | credit hm =>
    cases hm with
    | published hat => exact .inr (.inr (.inr ⟨_, hat, mem_singleton.mp hf⟩))
    | _ => cases hf
  | reapCredit hat he => rcases he with rfl | rfl <;> cases hf

end Stream

end Alighieri.Rdp
