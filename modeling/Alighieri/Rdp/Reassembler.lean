import Alighieri.Rdp.Codec

/-!
# Reassembly of DVC reads (rdp/windows/pdu.rs:1-139)

Each WTS read is an 8-byte `CHANNEL_PDU_HEADER` (declared length and flags, little
endian) and a part of a message. `push` returns a message with its LAST part, and
drops what it holds when it reports an error.
-/

namespace Alighieri.Rdp
open Endian Socks5 List

def pduHeaderLen : ℕ := 8
def channelFlagFirst : UInt32 := 0x01
def channelFlagLast : UInt32 := 0x02
def channelFlagShowProtocol : UInt32 := 0x10
def ignoredMetadataFlags : UInt32 := channelFlagShowProtocol ||| 0x20 ||| 0x40 ||| 0x80
def knownFlags : UInt32 := channelFlagFirst ||| channelFlagLast ||| ignoredMetadataFlags

def maxMessageLen : ℕ := headerLen + maxFramePayload

inductive ReassemblyError where
  | headerTooShort (len : ℕ)
  | unknownFlags (flags : UInt32)
  | missingFirst
  | unexpectedFirst
  | lengthChanged (expected actual : ℕ)
  | messageTooLarge (len : ℕ)
  | lengthExceeded (expected actual : ℕ)
  | lastLengthMismatch (expected actual : ℕ)
  deriving Repr, DecidableEq

structure DvcReassembler where
  buffer : Bytes
  expectedLen : Option ℕ
  deriving Repr, DecidableEq

variable {flags : UInt32} {declared : ℕ} {input : Bytes} {out : Option Bytes}
  {s s' : DvcReassembler}

namespace DvcReassembler

def new : DvcReassembler := ⟨[], none⟩

def reset (_ : DvcReassembler) : DvcReassembler := ⟨[], none⟩

/- The second half of `push_inner`: the length checks and the buffer. -/
def extend (s : DvcReassembler) (declared : ℕ) (last : Bool) (part : Bytes) :
    Except ReassemblyError (Option Bytes) × DvcReassembler :=
  let actual := s.buffer.length + part.length
  if actual > declared then (.error (.lengthExceeded declared actual), s)
  else
    let s := { s with buffer := s.buffer ++ part }
    if !last then (.ok none, s)
    else if s.buffer.length ≠ declared then
      (.error (.lastLengthMismatch declared s.buffer.length), s)
    else (.ok (some s.buffer), ⟨[], none⟩)

def pushInner (s : DvcReassembler) (input : Bytes) :
    Except ReassemblyError (Option Bytes) × DvcReassembler :=
  if input.length < pduHeaderLen then (.error (.headerTooShort input.length), s)
  else
    let declared := ofLe (input.take 4)
    let flags := UInt32.ofNat (ofLe ((input.drop 4).take 4))
    if flags &&& ~~~knownFlags ≠ 0 then (.error (.unknownFlags flags), s)
    else if declared > maxMessageLen then (.error (.messageTooLarge declared), s)
    else
      let first := flags &&& channelFlagFirst != 0
      let last := flags &&& channelFlagLast != 0
      match first, s.expectedLen with
      | true, some _ => (.error .unexpectedFirst, s)
      | false, none => (.error .missingFirst, s)
      | true, none =>
        { s with expectedLen := some declared }.extend declared last (input.drop pduHeaderLen)
      | false, some expected =>
        if expected ≠ declared then (.error (.lengthChanged expected declared), s)
        else s.extend declared last (input.drop pduHeaderLen)

def push (s : DvcReassembler) (input : Bytes) :
    Except ReassemblyError (Option Bytes) × DvcReassembler :=
  match s.pushInner input with
  | (.error e, s') => (.error e, s'.reset)
  | (.ok out, s') => (.ok out, s')

def pushAll : DvcReassembler → List Bytes →
    List (Except ReassemblyError (Option Bytes)) × DvcReassembler
  | s, [] => ([], s)
  | s, input :: inputs =>
    ((s.push input).1 :: ((s.push input).2.pushAll inputs).1,
      ((s.push input).2.pushAll inputs).2)

theorem pushAll_append (s : DvcReassembler) (xs ys : List Bytes) :
    s.pushAll (xs ++ ys) =
      ((s.pushAll xs).1 ++ ((s.pushAll xs).2.pushAll ys).1, ((s.pushAll xs).2.pushAll ys).2) := by
  induction xs generalizing s with
  | nil => rfl
  | cons x xs ih => simp only [cons_append, pushAll, ih]

end DvcReassembler

/-! ### Messages cut into PDUs -/

/- One PDU's own part of a message, with flag bits the reader has to ignore. -/
structure Fragment where
  metadata : UInt32
  ignored : metadata &&& ~~~ignoredMetadataFlags = 0
  bytes : Bytes

def pduFlags (first last : Bool) (metadata : UInt32) : UInt32 :=
  (if first then channelFlagFirst else 0) ||| (if last then channelFlagLast else 0) ||| metadata

/- The read that carries `f` as a part of a message of `declared` bytes. -/
def Fragment.pdu (f : Fragment) (declared : ℕ) (first last : Bool) : Bytes :=
  leBytes 4 declared ++ leBytes 4 (pduFlags first last f.metadata).toNat ++ f.bytes

def joined (parts : List Fragment) : Bytes := parts.flatMap Fragment.bytes

/- The PDUs of a message up to, and without, its LAST. -/
def opening (declared : ℕ) : List Fragment → List Bytes
  | [] => []
  | f :: fs => f.pdu declared true false :: fs.map fun f => f.pdu declared false false

/-- A message of a permitted size and one way to cut it: FIRST and middle PDUs carry
`parts`, the LAST carries `final` (with FIRST as well when there are no others). -/
structure Fragmentation where
  parts : List Fragment
  final : Fragment
  fits : (joined parts ++ final.bytes).length ≤ maxMessageLen

def Fragmentation.message (m : Fragmentation) : Bytes := joined m.parts ++ m.final.bytes

def Fragmentation.pdus (m : Fragmentation) : List Bytes :=
  opening m.message.length m.parts ++ [m.final.pdu m.message.length m.parts.isEmpty true]

/- Nothing for every PDU before the LAST, and the message with it. -/
def Fragmentation.answers (m : Fragmentation) : List (Except ReassemblyError (Option Bytes)) :=
  replicate m.parts.length (.ok none) ++ [.ok (some m.message)]

/- The beginning of a message whose LAST has not come; no parts at all for none. -/
structure Unfinished where
  declared : ℕ
  parts : List Fragment
  room : (joined parts).length ≤ declared
  fits : declared ≤ maxMessageLen

def Unfinished.pdus (u : Unfinished) : List Bytes := opening u.declared u.parts

def returned (answers : List (Except ReassemblyError (Option Bytes))) : List Bytes :=
  answers.filterMap fun answer => answer.toOption.join

theorem joined_snoc (parts : List Fragment) (f : Fragment) :
    joined (parts ++ [f]) = joined parts ++ f.bytes := by
  simp only [joined, flatMap_append, flatMap_singleton]

theorem opening_snoc (declared : ℕ) (parts : List Fragment) (f : Fragment) :
    opening declared (parts ++ [f]) =
      opening declared parts ++ [f.pdu declared parts.isEmpty false] := by
  cases parts with
  | nil => rfl
  | cons =>
    simp only [cons_append, opening, map_append, map_cons, map_nil,
      isEmpty_cons]

theorem returned_append (xs ys : List (Except ReassemblyError (Option Bytes))) :
    returned (xs ++ ys) = returned xs ++ returned ys := filterMap_append

/-! ### Flags -/

theorem and_eq_self_of_and_not {mask : UInt32} (h : flags &&& ~~~mask = 0) :
    flags &&& mask = flags := by
  have hbits : flags.toBitVec &&& ~~~mask.toBitVec = 0#32 := congrArg UInt32.toBitVec h
  apply UInt32.toBitVec_inj.mp
  apply BitVec.eq_of_getLsbD_eq
  intro i hi
  have hbit := congrArg (fun b => b.getLsbD i) hbits
  simp only [BitVec.getLsbD_and, BitVec.getLsbD_not, hi, decide_true, Bool.true_and,
    BitVec.getLsbD_zero, UInt32.toBitVec_and] at hbit ⊢
  cases hf : flags.toBitVec.getLsbD i <;> simp_all

/- Flag words without unknown bits are small numbers, so that their cases can be tried. -/
theorem eq_ofNat_of_and_not {mask : UInt32} (h : flags &&& ~~~mask = 0) (hmask : mask.toNat < 256) :
    ∃ n < 256, flags = UInt32.ofNat n := by
  refine ⟨flags.toNat, ?_, (UInt32.ofNat_toNat).symm⟩
  rw [← and_eq_self_of_and_not h, UInt32.toNat_and]
  exact lt_of_le_of_lt Nat.and_le_right hmask

theorem pduFlags_read_small : ∀ n < 256, (UInt32.ofNat n) &&& ~~~ignoredMetadataFlags = 0 →
    ∀ first last, pduFlags first last (UInt32.ofNat n) &&& ~~~knownFlags = 0 ∧
      ((pduFlags first last (UInt32.ofNat n) &&& channelFlagFirst != 0) = first) ∧
      ((pduFlags first last (UInt32.ofNat n) &&& channelFlagLast != 0) = last) := by
  decide +kernel

theorem pduFlags_split_small : ∀ n < 256, (UInt32.ofNat n) &&& ~~~knownFlags = 0 →
    (UInt32.ofNat n &&& ignoredMetadataFlags) &&& ~~~ignoredMetadataFlags = 0 ∧
      pduFlags (UInt32.ofNat n &&& channelFlagFirst != 0) (UInt32.ofNat n &&& channelFlagLast != 0)
        (UInt32.ofNat n &&& ignoredMetadataFlags) = UInt32.ofNat n := by
  decide +kernel

theorem Fragment.flags_read (f : Fragment) (first last : Bool) :
    pduFlags first last f.metadata &&& ~~~knownFlags = 0 ∧
      ((pduFlags first last f.metadata &&& channelFlagFirst != 0) = first) ∧
      ((pduFlags first last f.metadata &&& channelFlagLast != 0) = last) := by
  obtain ⟨n, hn, heq⟩ := eq_ofNat_of_and_not f.ignored (by decide)
  have hignored := f.ignored
  rw [heq] at hignored ⊢
  exact pduFlags_read_small n hn hignored first last

theorem pduFlags_split (h : flags &&& ~~~knownFlags = 0) :
    (flags &&& ignoredMetadataFlags) &&& ~~~ignoredMetadataFlags = 0 ∧
      pduFlags (flags &&& channelFlagFirst != 0) (flags &&& channelFlagLast != 0)
        (flags &&& ignoredMetadataFlags) = flags := by
  obtain ⟨n, hn, rfl⟩ := eq_ofNat_of_and_not h (by decide)
  exact pduFlags_split_small n hn h

/-! ### One read -/

theorem Fragment.pdu_length (f : Fragment) (declared : ℕ) (first last : Bool) :
    (f.pdu declared first last).length = pduHeaderLen + f.bytes.length := by
  simp only [Fragment.pdu, length_append, leBytes_length, pduHeaderLen]

theorem Fragment.pdu_declared (f : Fragment) (h : declared ≤ maxMessageLen) (first last : Bool) :
    ofLe ((f.pdu declared first last).take 4) = declared := by
  have hfits : declared < 256 ^ 4 := lt_of_le_of_lt h (by decide)
  rw [Fragment.pdu, append_assoc, take_left' (leBytes_length ..), ofLe_leBytes hfits]

theorem Fragment.pdu_flags (f : Fragment) (declared : ℕ) (first last : Bool) :
    UInt32.ofNat (ofLe (((f.pdu declared first last).drop 4).take 4)) =
      pduFlags first last f.metadata := by
  rw [Fragment.pdu, append_assoc, drop_left' (leBytes_length ..),
    take_left' (leBytes_length ..), ofLe_leBytes (UInt32.toNat_lt _), UInt32.ofNat_toNat]

theorem Fragment.pdu_part (f : Fragment) (declared : ℕ) (first last : Bool) :
    (f.pdu declared first last).drop pduHeaderLen = f.bytes := by
  refine drop_left' ?_
  simp only [length_append, leBytes_length, pduHeaderLen]

theorem exists_pdu (hlen : pduHeaderLen ≤ input.length)
    (hflags : UInt32.ofNat (ofLe ((input.drop 4).take 4)) &&& ~~~knownFlags = 0) :
    ∃ f : Fragment, f.bytes = input.drop pduHeaderLen ∧
      input = f.pdu (ofLe (input.take 4))
        (UInt32.ofNat (ofLe ((input.drop 4).take 4)) &&& channelFlagFirst != 0)
        (UInt32.ofNat (ofLe ((input.drop 4).take 4)) &&& channelFlagLast != 0) := by
  obtain ⟨hignored, hsplit⟩ := pduFlags_split hflags
  refine ⟨⟨_, hignored, input.drop pduHeaderLen⟩, rfl, ?_⟩
  have hword : (input.take 4).length = 4 := by
    simp only [length_take, pduHeaderLen] at hlen ⊢
    omega
  have hbits : ((input.drop 4).take 4).length = 4 := by
    simp only [length_take, length_drop, pduHeaderLen] at hlen ⊢
    omega
  have hlt := ofLe_lt ((input.drop 4).take 4)
  rw [hbits] at hlt
  simp only [Fragment.pdu, hsplit]
  rw [UInt32.toNat_ofNat_of_lt' hlt, leBytes_ofLe hword, leBytes_ofLe hbits, append_assoc,
    show pduHeaderLen = 4 + 4 from rfl, ← drop_drop, take_append_drop,
    take_append_drop]

namespace DvcReassembler

/- What a read that is not refused is, and what it does. -/
inductive Takes (s : DvcReassembler) : Bytes → Option Bytes → DvcReassembler → Prop where
  | part (f : Fragment) (declared : ℕ) (hmax : declared ≤ maxMessageLen)
      (hsame : ∀ d, s.expectedLen = some d → d = declared)
      (hroom : s.buffer.length + f.bytes.length ≤ declared) :
      Takes s (f.pdu declared s.expectedLen.isNone false) none
        ⟨s.buffer ++ f.bytes, some declared⟩
  | final (f : Fragment) (declared : ℕ) (hmax : declared ≤ maxMessageLen)
      (hsame : ∀ d, s.expectedLen = some d → d = declared)
      (hfull : s.buffer.length + f.bytes.length = declared) :
      Takes s (f.pdu declared s.expectedLen.isNone true) (some (s.buffer ++ f.bytes)) new

theorem extend_ok {last : Bool} {part : Bytes} (h : s.extend declared last part = (.ok out, s')) :
    s.buffer.length + part.length ≤ declared ∧
      ((last = false ∧ out = none ∧ s' = { s with buffer := s.buffer ++ part }) ∨
        (last = true ∧ s.buffer.length + part.length = declared ∧
          out = some (s.buffer ++ part) ∧ s' = new)) := by
  unfold extend at h
  simp only at h
  split at h
  · cases h
  rename_i hroom
  refine ⟨by omega, ?_⟩
  split at h
  · rename_i hlast
    cases h
    exact .inl ⟨by simpa using hlast, rfl, rfl⟩
  · rename_i hlast
    split at h
    · cases h
    rename_i hfull
    cases h
    refine .inr ⟨by simpa using hlast, ?_, rfl, rfl⟩
    simpa only [ne_eq, Decidable.not_not, length_append] using hfull

theorem push_ok_inner (h : s.push input = (.ok out, s')) : s.pushInner input = (.ok out, s') := by
  unfold push at h
  split at h
  · cases h
  · rename_i hr
    rw [hr, h]

theorem push_error {e : ReassemblyError} (h : s.push input = (.error e, s')) : s' = new := by
  unfold push at h
  split at h <;> cases h
  rfl

theorem Takes.of_extend {t : DvcReassembler} {f : Fragment} {last : Bool}
    (hmax : declared ≤ maxMessageLen) (hsame : ∀ d, s.expectedLen = some d → d = declared)
    (h : t.extend declared last f.bytes = (.ok out, s')) (hbuffer : t.buffer = s.buffer)
    (hnow : t.expectedLen = some declared) :
    Takes s (f.pdu declared s.expectedLen.isNone last) out s' := by
  obtain ⟨hroom, ⟨rfl, rfl, rfl⟩ | ⟨rfl, hfull, rfl, rfl⟩⟩ := extend_ok h
  · rw [hbuffer] at hroom ⊢
    rw [hnow]
    exact .part f declared hmax hsame hroom
  · rw [hbuffer] at hfull ⊢
    exact .final f declared hmax hsame hfull

theorem Takes.of_push (h : s.push input = (.ok out, s')) : Takes s input out s' := by
  have hinner := push_ok_inner h
  unfold pushInner at hinner
  simp only at hinner
  split at hinner
  · cases hinner
  rename_i hlen
  split at hinner
  · cases hinner
  rename_i hflags
  split at hinner
  · cases hinner
  rename_i hmax
  obtain ⟨f, hbytes, hpdu⟩ :=
    exists_pdu (Nat.le_of_not_gt hlen) (by simpa only [ne_eq, Decidable.not_not] using hflags)
  rw [← hbytes] at hinner
  rw [hpdu]
  split at hinner
  · cases hinner
  · cases hinner
  · rename_i hfirst hnone
    rw [hfirst]
    have hsame : ∀ d, s.expectedLen = some d → d = ofLe (input.take 4) := by
      intro d hd
      rw [hnone] at hd
      cases hd
    have htakes := Takes.of_extend (Nat.le_of_not_gt hmax) hsame hinner rfl rfl
    rwa [hnone] at htakes
  · rename_i hfirst hsome
    rw [hfirst]
    split at hinner
    · cases hinner
    rename_i hexpected
    rw [ne_eq, Decidable.not_not] at hexpected
    rw [hexpected] at hsome
    have hsame : ∀ d, s.expectedLen = some d → d = ofLe (input.take 4) := by
      intro d hd
      exact (Option.some.inj (hsome.symm.trans hd)).symm
    have htakes := Takes.of_extend (Nat.le_of_not_gt hmax) hsame hinner rfl hsome
    rwa [hsome] at htakes

theorem pushInner_pdu (s : DvcReassembler) (f : Fragment) (last : Bool)
    (hmax : declared ≤ maxMessageLen) (hsame : ∀ d, s.expectedLen = some d → d = declared) :
    s.pushInner (f.pdu declared s.expectedLen.isNone last) =
      extend ⟨s.buffer, some declared⟩ declared last f.bytes := by
  obtain ⟨hknown, hfirst, hlast⟩ := f.flags_read s.expectedLen.isNone last
  have hlen : ¬ (f.pdu declared s.expectedLen.isNone last).length < pduHeaderLen := by
    rw [f.pdu_length]
    omega
  unfold pushInner
  simp only [if_neg hlen, f.pdu_declared hmax, f.pdu_flags, f.pdu_part, hfirst, hlast, hknown,
    ne_eq, not_true_eq_false, if_false, if_neg (Nat.not_lt.mpr hmax)]
  cases hexpected : s.expectedLen with
  | none => rfl
  | some d =>
    have hd := hsame d hexpected
    simp only [Option.isNone_some, hd, not_true_eq_false, if_false]
    rw [← hd, ← hexpected]

theorem Takes.push (h : Takes s input out s') : s.push input = (.ok out, s') := by
  cases h with
  | part f declared hmax hsame hroom =>
    unfold DvcReassembler.push
    rw [pushInner_pdu s f false hmax hsame]
    simp only [extend, gt_iff_lt, if_neg (Nat.not_lt.mpr hroom), Bool.not_false, if_true]
  | final f declared hmax hsame hfull =>
    unfold DvcReassembler.push
    rw [pushInner_pdu s f true hmax hsame]
    simp only [extend, gt_iff_lt, hfull, lt_irrefl, Bool.not_true, Bool.false_eq_true, if_false,
      length_append, ne_eq, not_true_eq_false, new]

/-! ### What the reassembler holds -/

/- The buffer is within the length its message declares, and that within the limit. -/
structure Bounded (s : DvcReassembler) : Prop where
  idle : s.expectedLen = none → s.buffer = []
  held : ∀ d, s.expectedLen = some d → s.buffer.length ≤ d ∧ d ≤ maxMessageLen

theorem new_bounded : new.Bounded :=
  ⟨fun _ => rfl, fun d hd => by cases hd⟩

theorem push_bounded (input : Bytes) : (s.push input).2.Bounded := by
  rcases hp : s.push input with ⟨out | out, s'⟩
  · rw [push_error hp]
    exact new_bounded
  · cases Takes.of_push hp with
    | part f declared hmax hsame hroom =>
      refine ⟨fun hd => (by cases hd), fun d hd => ?_⟩
      cases hd
      simp only [length_append]
      exact ⟨hroom, hmax⟩
    | final => exact new_bounded

theorem pushAll_bounded (h : s.Bounded) (inputs : List Bytes) : (s.pushAll inputs).2.Bounded := by
  induction inputs generalizing s with
  | nil => exact h
  | cons input inputs ih => exact ih (push_bounded input)

end DvcReassembler

/-! ### Whole messages -/

open DvcReassembler

def Unfinished.left (u : Unfinished) : DvcReassembler :=
  ⟨joined u.parts, if u.parts.isEmpty then none else some u.declared⟩

theorem Unfinished.left_same (u : Unfinished) :
    ∀ d, u.left.expectedLen = some d → d = u.declared := by
  intro d hd
  unfold Unfinished.left at hd
  simp only at hd
  split at hd
  · cases hd
  · exact (Option.some.inj hd).symm

theorem Unfinished.left_isNone (u : Unfinished) :
    u.left.expectedLen.isNone = u.parts.isEmpty := by
  cases hp : u.parts <;> simp [Unfinished.left, hp]

def Unfinished.snoc (u : Unfinished) (f : Fragment)
    (h : (joined u.parts).length + f.bytes.length ≤ u.declared) : Unfinished where
  declared := u.declared
  parts := u.parts ++ [f]
  room := by rwa [joined_snoc, length_append]
  fits := u.fits

theorem Unfinished.snoc_left (u : Unfinished) (f : Fragment)
    (h : (joined u.parts).length + f.bytes.length ≤ u.declared) :
    (u.snoc f h).left = ⟨u.left.buffer ++ f.bytes, some u.declared⟩ := by
  simp [Unfinished.left, Unfinished.snoc, joined_snoc]

def Unfinished.finish (u : Unfinished) (f : Fragment)
    (h : (joined u.parts).length + f.bytes.length = u.declared) : Fragmentation where
  parts := u.parts
  final := f
  fits := by
    rw [length_append, h]
    exact u.fits

theorem Unfinished.finish_pdus (u : Unfinished) (f : Fragment)
    (h : (joined u.parts).length + f.bytes.length = u.declared) :
    (u.finish f h).pdus = u.pdus ++ [f.pdu u.declared u.parts.isEmpty true] := by
  have hlen : (u.finish f h).message.length = u.declared := by
    rw [Fragmentation.message, length_append]
    exact h
  rw [Fragmentation.pdus, hlen]
  rfl

theorem pushAll_snoc {t t' : DvcReassembler} {inputs : List Bytes}
    {answers : List (Except ReassemblyError (Option Bytes))}
    {answer : Except ReassemblyError (Option Bytes)} (h : s.pushAll inputs = (answers, t))
    (ht : t.push input = (answer, t')) :
    s.pushAll (inputs ++ [input]) = (answers ++ [answer], t') := by
  simp only [pushAll_append, h, pushAll, ht]

theorem pushAll_opening (declared : ℕ) (parts : List Fragment)
    (room : (joined parts).length ≤ declared) (fits : declared ≤ maxMessageLen) :
    new.pushAll (opening declared parts) =
      (replicate parts.length (.ok none), (Unfinished.mk declared parts room fits).left) := by
  induction parts using reverseRecOn with
  | nil => rfl
  | append_singleton parts f ih =>
    have hroom : (joined parts).length + f.bytes.length ≤ declared := by
      rwa [joined_snoc, length_append] at room
    let u : Unfinished := ⟨declared, parts, by omega, fits⟩
    have htakes := Takes.part (s := u.left) f declared fits u.left_same hroom
    rw [u.left_isNone, ← u.snoc_left f hroom] at htakes
    rw [opening_snoc, pushAll_snoc (ih u.room) htakes.push, length_append,
      length_singleton, replicate_succ']
    rfl

theorem pushAll_pdus (m : Fragmentation) : new.pushAll m.pdus = (m.answers, new) := by
  have hlen : (joined m.parts).length + m.final.bytes.length = m.message.length := by
    rw [Fragmentation.message, length_append]
  let u : Unfinished := ⟨m.message.length, m.parts, by omega, m.fits⟩
  have htakes := Takes.final (s := u.left) m.final m.message.length m.fits u.left_same hlen
  rw [u.left_isNone] at htakes
  exact pushAll_snoc (pushAll_opening m.message.length m.parts u.room m.fits) htakes.push

theorem pushAll_messages (ms : List Fragmentation) :
    new.pushAll (ms.flatMap Fragmentation.pdus) = (ms.flatMap Fragmentation.answers, new) := by
  induction ms with
  | nil => rfl
  | cons m ms ih => simp only [flatMap_cons, pushAll_append, pushAll_pdus, ih]

theorem returned_quiet (n : ℕ) : returned (replicate n (.ok none)) = [] := by
  induction n with
  | zero => rfl
  | succ n ih => exact ih

theorem returned_answers (m : Fragmentation) : returned m.answers = [m.message] := by
  rw [Fragmentation.answers, returned_append, returned_quiet]
  rfl

theorem returned_messages (ms : List Fragmentation) :
    returned (ms.flatMap Fragmentation.answers) = ms.map Fragmentation.message := by
  induction ms with
  | nil => rfl
  | cons m ms ih =>
    rw [flatMap_cons, returned_append, returned_answers, ih]
    rfl

/-! ### Whatever is accepted -/

theorem Unfinished.declaring (u : Unfinished) (hmax : declared ≤ maxMessageLen)
    (hsame : ∀ d, u.left.expectedLen = some d → d = declared) :
    ∃ v : Unfinished, v.declared = declared ∧ v.parts = u.parts ∧ v.pdus = u.pdus := by
  cases hp : u.parts with
  | nil =>
    refine ⟨⟨declared, [], Nat.zero_le _, hmax⟩, rfl, rfl, ?_⟩
    rw [Unfinished.pdus, Unfinished.pdus, hp]
    rfl
  | cons =>
    have hd : u.declared = declared := hsame u.declared (by simp [Unfinished.left, hp])
    exact ⟨u, hd, hp, rfl⟩

theorem pushAll_accepted (inputs : List Bytes)
    (h : ∀ answer ∈ (new.pushAll inputs).1, answer.isOk) :
    ∃ (ms : List Fragmentation) (u : Unfinished),
      inputs = ms.flatMap Fragmentation.pdus ++ u.pdus ∧
        new.pushAll inputs =
          (ms.flatMap Fragmentation.answers ++ replicate u.parts.length (.ok none), u.left) := by
  induction inputs using reverseRecOn with
  | nil => exact ⟨[], ⟨0, [], Nat.zero_le _, Nat.zero_le _⟩, rfl, rfl⟩
  | append_singleton inputs input ih =>
    rw [pushAll_append] at h
    obtain ⟨ms, u, hinputs, hrun⟩ := ih fun answer ha => h answer (mem_append_left _ ha)
    have hok := h (u.left.push input).1 (by rw [hrun]; simp [pushAll])
    obtain ⟨out, hpush⟩ : ∃ out, u.left.push input = (.ok out, (u.left.push input).2) := by
      rcases hp : u.left.push input with ⟨e | out, t⟩
      · rw [hp] at hok
        cases hok
      · exact ⟨out, rfl⟩
    have hnext := pushAll_snoc hrun hpush
    generalize (u.left.push input).2 = t at hpush hnext
    rw [hnext, hinputs]
    cases Takes.of_push hpush with
    | part f declared hmax hsame =>
      obtain ⟨v, rfl, hparts, hpdus⟩ := u.declaring hmax hsame
      have hroom' : (joined v.parts).length + f.bytes.length ≤ v.declared := by rwa [hparts]
      refine ⟨ms, v.snoc f hroom', ?_, ?_⟩
      · have hopening : (v.snoc f hroom').pdus = v.pdus ++ [f.pdu v.declared v.parts.isEmpty false] :=
          opening_snoc _ _ _
        rw [u.left_isNone, ← hparts, ← hpdus, append_assoc, hopening]
      · rw [v.snoc_left f hroom', append_assoc, ← replicate_succ']
        simp only [Unfinished.snoc, Unfinished.left, hparts, length_append,
          length_singleton]
    | final f declared hmax hsame =>
      obtain ⟨v, rfl, hparts, hpdus⟩ := u.declaring hmax hsame
      have hfull' : (joined v.parts).length + f.bytes.length = v.declared := by rwa [hparts]
      refine ⟨ms ++ [v.finish f hfull'], ⟨0, [], Nat.zero_le _, Nat.zero_le _⟩, ?_, ?_⟩
      · rw [flatMap_append, flatMap_singleton, v.finish_pdus f hfull', u.left_isNone,
          ← hparts, ← hpdus, append_assoc]
        exact (append_nil _).symm
      · rw [flatMap_append, flatMap_singleton, append_assoc]
        simp only [Fragmentation.answers, Unfinished.finish, Fragmentation.message, hparts]
        exact congrArg (fun answers => (answers, new)) (append_nil _).symm

/-- Every list of messages, cut in any way, comes back whole and in order; accepted reads are such
messages and the beginning of one more; an error leaves a new reassembler; the buffer stays within
the declared length and the limit. -/
theorem dvc_reassembly :
    (∀ ms : List Fragmentation,
      new.pushAll (ms.flatMap Fragmentation.pdus) = (ms.flatMap Fragmentation.answers, new) ∧
        returned (ms.flatMap Fragmentation.answers) = ms.map Fragmentation.message) ∧
    (∀ inputs : List Bytes, (∀ answer ∈ (new.pushAll inputs).1, answer.isOk) →
      ∃ (ms : List Fragmentation) (u : Unfinished),
        inputs = ms.flatMap Fragmentation.pdus ++ u.pdus ∧
          returned (new.pushAll inputs).1 = ms.map Fragmentation.message) ∧
    (∀ (s s' : DvcReassembler) (input : Bytes) (e : ReassemblyError),
      s.push input = (.error e, s') → s' = new) ∧
    (∀ inputs : List Bytes, (new.pushAll inputs).2.Bounded) := by
  refine ⟨fun ms => ⟨pushAll_messages ms, returned_messages ms⟩, ?_, fun s s' input e => push_error,
    pushAll_bounded new_bounded⟩
  intro inputs h
  obtain ⟨ms, u, hinputs, hrun⟩ := pushAll_accepted inputs h
  refine ⟨ms, u, hinputs, ?_⟩
  rw [hrun, returned_append, returned_messages, returned_quiet, append_nil]

theorem dvc_reassembly_started :
    ∃ (ms : List Fragmentation) (u : Unfinished),
      [[2, 0, 0, 0, 0x11, 0, 0, 0, 65], [2, 0, 0, 0, 0x02, 0, 0, 0, 66],
        [1, 0, 0, 0, 0x01, 0, 0, 0]] = ms.flatMap Fragmentation.pdus ++ u.pdus ∧
      [[65, 66]] = ms.map Fragmentation.message :=
  dvc_reassembly.2.1 [[2, 0, 0, 0, 0x11, 0, 0, 0, 65], [2, 0, 0, 0, 0x02, 0, 0, 0, 66],
    [1, 0, 0, 0, 0x01, 0, 0, 0]] (by decide)

end Alighieri.Rdp
