import Alighieri.Lib.Transition
import Alighieri.Rdp.StreamMoves

/-!
# One direction of a stream (mux.rs:512-549, 667-730, 964-1149)

Bytes go from the sender's `drained` through the frames on their way into the receiver's buffer,
and the credit for them comes back. A move of either end is an `Account` and keeps `Conduit`.
-/

namespace Alighieri.Rdp
open Lts List

variable {fs : List Frame}

/- SHUTDOWN_WRITE comes once, and no DATA comes after it. -/
def eofNext : Bool → Frame → Option Bool
  | false, .shutdownWrite _ => some true
  | true, .shutdownWrite _ => none
  | true, .data _ _ => none
  | eof, _ => some eof

def Frame.flows : Frame → Bool
  | .data _ _ | .shutdownWrite _ | .windowUpdate _ _ => true
  | _ => false

def Still (fs : List Frame) : Prop := ∀ f ∈ fs, f.flows = false

theorem Still.nil : Still [] := fun _ hf => by cases hf

theorem Still.single {f : Frame} (h : f.flows = false) : Still [f] := by
  intro g hg
  rw [mem_singleton.mp hg]
  exact h

theorem Still.bytes (h : Still fs) : dataBytes fs = [] := by
  refine flatMap_eq_nil_iff.mpr fun f hf => ?_
  have hstill := h f hf
  cases f <;> first | rfl | cases hstill

theorem Still.credit (h : Still fs) : creditSum fs = 0 := by
  refine List.sum_eq_zero_iff_forall_eq_nat.mpr fun n hn => ?_
  obtain ⟨f, hf, rfl⟩ := mem_map.mp hn
  have hstill := h f hf
  cases f <;> first | rfl | cases hstill

theorem Still.eof (h : Still fs) (eof : Bool) : exec eofNext eof fs = some eof := by
  induction fs with
  | nil => rfl
  | cons f fs ih =>
    have hf := h f (mem_cons_self)
    have hfs := ih fun g hg => h g (mem_cons_of_mem _ hg)
    have hn : eofNext eof f = some eof := by cases f <;> cases eof <;> first | rfl | cases hf
    show (eofNext eof f).bind (fun e => exec eofNext e fs) = some eof
    rw [hn]
    exact hfs

/-- A move of one end: the frames `used` have been taken in and the frames `new` committed.
`h` and `h'` say whether the end listened before and listens after it. -/
structure Account (h h' : Prop) (s s' : Stream) (used new : List Frame) : Prop where
  held_le : s'.held + (dataBytes new).length ≤ s.held + creditSum used
  held_eq : h' → s'.alive = true → s'.held + (dataBytes new).length = s.held + creditSum used
  kept_le : s'.kept + creditSum new ≤ s.kept + (dataBytes used).length
  kept_eq : h' → s'.kept + creditSum new = s.kept + (dataBytes used).length
  drained : s'.drained = s.drained ++ dataBytes new
  shut : exec eofNext s.hasShut new = some s'.hasShut
  taken : s'.delivered ++ s'.inbound = s.delivered ++ s.inbound ∨
    (h ∧ s'.delivered ++ s'.inbound = s.delivered ++ s.inbound ++ dataBytes used)
  received : h' → h ∧ s'.delivered ++ s'.inbound = s.delivered ++ s.inbound ++ dataBytes used ∧
    exec eofNext s.inboundEof used = some s'.inboundEof
  alive : s'.alive = true → s.alive = true

/-- The direction from the stream `s` to the stream `t`, with the frames `fs` on their way and
`gs` on their way back. While the receiver listens no byte is missing; while both ends keep the
stream, no credit is. -/
structure Conduit (window : ℕ) (listens engaged : Prop) (s t : Stream) (fs gs : List Frame) :
    Prop where
  credit : s.held + (dataBytes fs).length + t.kept + creditSum gs ≤ window
  order : t.delivered ++ t.inbound <+: s.drained
  full : listens → t.delivered ++ t.inbound ++ dataBytes fs = s.drained
  eof : listens → exec eofNext t.inboundEof fs = some s.hasShut
  balance : engaged → s.alive = true → t.alive = true →
    s.held + (dataBytes fs).length + t.kept + creditSum gs = window

namespace Conduit

variable {window : ℕ} {listens engaged engaged' h h' : Prop} {s s' t : Stream}
  {fs gs used new : List Frame}

theorem sender (hc : Conduit window listens engaged s t fs (used ++ gs))
    (ha : Account h h' s s' used new) (he : engaged' → engaged ∧ h') :
    Conduit window listens engaged' s' t (fs ++ new) gs := by
  constructor
  · have hcredit := hc.credit
    have hheld := ha.held_le
    rw [creditSum_append] at hcredit
    rw [dataBytes_append, length_append]
    omega
  · rw [ha.drained]
    exact hc.order.trans (prefix_append _ _)
  · intro hl
    rw [ha.drained, dataBytes_append, ← append_assoc, hc.full hl]
  · intro hl
    exact exec_trans (hc.eof hl) ha.shut
  · intro heng hs' ht
    have hbal := hc.balance (he heng).1 (ha.alive hs') ht
    have hheld := ha.held_eq (he heng).2 hs'
    rw [creditSum_append] at hbal
    rw [dataBytes_append, length_append]
    omega

theorem receiver (hc : Conduit window h engaged t s (used ++ gs) fs)
    (ha : Account h h' s s' used new) (he : engaged' → engaged ∧ h') :
    Conduit window h' engaged' t s' gs (fs ++ new) := by
  constructor
  · have hcredit := hc.credit
    have hkept := ha.kept_le
    rw [dataBytes_append, length_append] at hcredit
    rw [creditSum_append]
    omega
  · rcases ha.taken with hsame | ⟨hl, htook⟩
    · rw [hsame]
      exact hc.order
    · rw [htook, ← hc.full hl, dataBytes_append, ← append_assoc]
      exact prefix_append _ _
  · intro hl'
    obtain ⟨hl, htook, -⟩ := ha.received hl'
    rw [htook, ← hc.full hl, dataBytes_append]
    simp only [append_assoc]
  · intro hl'
    obtain ⟨hl, -, heof⟩ := ha.received hl'
    have hall := hc.eof hl
    rw [exec_append, heof] at hall
    exact hall
  · intro heng ht hs'
    have hbal := hc.balance (he heng).1 ht (ha.alive hs')
    have hkept := ha.kept_eq (he heng).2
    rw [dataBytes_append, length_append] at hbal
    rw [creditSum_append]
    omega

theorem fresh (hf : Still fs) (hg : Still gs) :
    Conduit window listens engaged (Stream.new window) (Stream.new window) fs gs := by
  have hheld : (Stream.new window).held = window := rfl
  have hkept : (Stream.new window).kept = 0 := rfl
  have hsum : (Stream.new window).held + (dataBytes fs).length + (Stream.new window).kept +
      creditSum gs = window := by
    rw [hheld, hkept, hf.bytes, hg.credit]
    rfl
  refine ⟨Nat.le_of_eq hsum, prefix_refl _, ?_, ?_, fun _ _ _ => hsum⟩
  · intro _
    rw [hf.bytes]
    rfl
  · intro _
    exact hf.eof false

end Conduit

namespace Account

variable {h h' : Prop} {s s' : Stream} {used new : List Frame}

theorem same (hout : s'.outPc = s.outPc) (hav : s'.peerCredit.available = s.peerCredit.available)
    (hkept : s'.kept = s.kept) (hdr : s'.drained = s.drained)
    (hsent : s'.shutdownSent = s.shutdownSent)
    (hre : s'.delivered ++ s'.inbound = s.delivered ++ s.inbound)
    (heof : h' → s'.inboundEof = s.inboundEof) (hal : s'.alive = true → s.alive = true)
    (hh : h' → h) (hu : Still used) (hn : Still new) : Account h h' s s' used new := by
  have hheld : s'.held = s.held := by simp only [Stream.held, hout, hav]
  have hshut : s'.hasShut = s.hasShut := by simp only [Stream.hasShut, hout, hsent]
  refine ⟨?_, ?_, ?_, ?_, ?_, ?_, .inl hre, ?_, hal⟩
  · rw [hheld, hn.bytes, hu.credit]
    exact Nat.le_refl _
  · intro _ _
    rw [hheld, hn.bytes, hu.credit]
    rfl
  · rw [hkept, hn.credit, hu.bytes]
    exact Nat.le_refl _
  · intro _
    rw [hkept, hn.credit, hu.bytes]
    rfl
  · rw [hdr, hn.bytes, append_nil]
  · rw [hshut]
    exact hn.eof _
  · intro hl
    rw [hre, hu.bytes, append_nil, heof hl]
    exact ⟨hh hl, rfl, hu.eof _⟩

theorem refl (hh : h' → h) (hu : Still used) (hn : Still new) : Account h h' s s used new :=
  same rfl rfl rfl rfl rfl rfl (fun _ => rfl) (fun ha => ha) hh hu hn

theorem deaf (hl : ¬ h') (hn : Still new) : Account h h' s s used new := by
  refine ⟨?_, fun hh => absurd hh hl, ?_, fun hh => absurd hh hl, ?_, hn.eof _, .inl rfl,
    fun hh => absurd hh hl, fun ha => ha⟩
  · rw [hn.bytes]
    exact Nat.le_add_right _ _
  · rw [hn.credit]
    exact Nat.le_add_right _ _
  · rw [hn.bytes, append_nil]

theorem moved {maxData id : ℕ} {out : List Frame} (hm : Stream.Moved maxData id s s' out new)
    (hh : h' → h) : Account h h' s s' [] new := by
  refine ⟨hm.held_le, fun _ ha => hm.held_eq ha, Nat.le_of_eq hm.kept, fun _ => hm.kept, hm.drained,
    ?_, .inl hm.received, ?_, ?_⟩
  · have hcommit := hm.commit
    generalize s'.closeQueued = q at hcommit
    generalize s'.hasShut = sh at hcommit ⊢
    cases hcommit with
    | nothing => rfl
    | data payload hp hle hl hs | shutdown hl hs => rw [hs]; rfl
    | credit | close => cases s.hasShut <;> rfl
  · intro hl
    refine ⟨hh hl, ?_, ?_⟩
    · rw [hm.received]
      exact (append_nil _).symm
    · rw [hm.eof]
      rfl
  · intro ha
    obtain ⟨hd, hr⟩ := Stream.alive_iff.mp ha
    refine Stream.alive_iff.mpr ⟨?_, hm.remote ▸ hr⟩
    by_contra hdrop
    rw [hm.dropped (by simpa using hdrop)] at hd
    cases hd

theorem ended (failure : Option StreamFailure) (hl : ¬ h') (hu : Still used) (hn : Still new) :
    Account h h' s (s.shut failure) used new :=
  same rfl rfl rfl rfl rfl rfl (fun hh => absurd hh hl) (by simp [Stream.alive, Stream.shut])
    (fun hh => absurd hh hl) hu hn

theorem pushed {payload : Bytes} (id : ℕ) (hp : s.pushInbound payload = .ok s') (hh : h) (hl : h' → h) :
    Account h h' s s' [.data id payload] [] := by
  obtain ⟨heof, -, -, rfl⟩ := Stream.pushInbound_ok hp
  have hbytes : dataBytes [.data id payload] = payload := by simp [dataBytes, Frame.bytes]
  refine ⟨Nat.le_refl _, fun _ _ => rfl, ?_, ?_, (append_nil _).symm, rfl, .inr ⟨hh, ?_⟩, ?_,
    fun ha => ha⟩
  · rw [hbytes]
    simp only [Stream.kept, length_append, creditSum_nil]
    omega
  · intro _
    rw [hbytes]
    simp only [Stream.kept, length_append, creditSum_nil]
    omega
  · rw [hbytes, append_assoc]
  · intro hl'
    refine ⟨hl hl', by rw [hbytes, append_assoc], ?_⟩
    rw [heof]
    rfl

theorem finished (id : ℕ) (hf : s.finishInbound = .ok s') (hl : h' → h) :
    Account h h' s s' [.shutdownWrite id] [] := by
  obtain ⟨heof, rfl⟩ := Stream.finishInbound_ok hf
  refine ⟨Nat.le_refl _, fun _ _ => rfl, Nat.le_refl _, fun _ => rfl, (append_nil _).symm, rfl,
    .inl rfl, ?_, fun ha => ha⟩
  intro hl'
  refine ⟨hl hl', (append_nil _).symm, ?_⟩
  rw [heof]
  rfl

theorem credited (id : ℕ) {credit : ℕ} (hc : s.addCredit credit = .ok s') (hl : h' → h) :
    Account h h' s s' [.windowUpdate id credit] [] := by
  obtain rfl := Stream.addCredit_ok hc
  have hsum : creditSum [.windowUpdate id credit] = credit := by simp [creditSum, Frame.credit]
  refine ⟨?_, ?_, Nat.le_refl _, fun _ => rfl, (append_nil _).symm, rfl, .inl rfl, ?_,
    fun ha => ha⟩
  · rw [hsum]
    simp only [Stream.held, dataBytes_nil, length_nil]
    omega
  · intro _ _
    rw [hsum]
    simp only [Stream.held, dataBytes_nil, length_nil]
    omega
  · intro hl'
    refine ⟨hl hl', (append_nil _).symm, ?_⟩
    cases s.inboundEof <;> rfl

end Account

end Alighieri.Rdp
