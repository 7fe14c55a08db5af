import Alighieri.Rdp.Decoder
import Alighieri.Rdp.Stream

/-!
# The handshake and the frames behind it (mux.rs:105-112, 146-176, 1151-1162; protocol.rs:741-759)

The two directions of the transport are byte streams. Each end writes its HELLO, reads the
other's, and goes on with the bytes behind it.
-/

namespace Alighieri.Rdp
open Net List Except

variable {f : Frame} {a b : Hello}

/-! ### A frame and what follows it -/

theorem nextFrame_encode (ht : f.Typed) (hv : f.validate = .ok ()) :
    nextFrame (f.header f.encodePayload.length ++ f.encodePayload) =
      .ok (some (f.canonical, headerLen + f.encodePayload.length)) := by
  obtain ⟨hid, hbody⟩ := bodyValid_of_validate hv
  have hlen := header_length f f.encodePayload.length
  have hhead := decode_header ht.id hid (encodePayload_length_le hbody)
  rw [nextFrame_of_header (by rw [length_append]; omega), take_left' hlen, bind_of_ok hhead]
  dsimp only
  rw [if_neg (by rw [length_append]; omega), drop_left' hlen, take_length,
    bind_of_ok (decodePayload_encodePayload ht.body hv _)]

theorem readFrame_encode (ht : f.Typed) (hv : f.validate = .ok ()) :
    ∃ bytes, f.encode = .ok bytes ∧ ∀ rest, readFrame (bytes ++ rest) = .ok (f.canonical, rest) := by
  refine ⟨_, encode_of_validate hv, fun rest => ?_⟩
  rw [readFrame_eq, nextFrame_item_append rest (nextFrame_encode ht hv)]
  dsimp only
  rw [drop_left' (by rw [length_append, header_length])]

/- `write_frame` for one frame after the other. -/
def writeFrames : List Frame → Except ProtocolError Bytes
  | [] => .ok []
  | f :: fs => do
    let encoded ← f.encode
    let later ← writeFrames fs
    .ok (encoded ++ later)

/-- Valid frames written one after the other are read back in their order with their addresses
canonical, and reading goes on with whatever stands behind them. -/
theorem frames_cross_the_wire (fs : List WireFrame) (hv : ∀ f ∈ fs, f.frame.validate = .ok ()) :
    ∃ bytes, writeFrames (fs.map (·.frame)) = .ok bytes ∧ ∀ rest, readFrames (bytes ++ rest) =
      ⟨fs.map (·.frame.canonical) ++ (readFrames rest).frames, (readFrames rest).stop,
        (readFrames rest).rest⟩ := by
  induction fs with
  | nil => exact ⟨[], rfl, fun rest => rfl⟩
  | cons f fs ih =>
    obtain ⟨later, hlater, hread⟩ := ih fun g hg => hv g (mem_cons_of_mem _ hg)
    obtain ⟨encoded, hencoded, hfirst⟩ := readFrame_encode f.typed (hv f mem_cons_self)
    refine ⟨encoded ++ later, ?_, fun rest => ?_⟩
    · rw [map_cons, writeFrames, bind_of_ok hencoded, bind_of_ok hlater]
    · rw [append_assoc, readFrames_of_ok (hfirst _), hread]
      rfl

def pongFrame : WireFrame := ⟨.pong 7, by decide, show 7 < 256 ^ 8 by decide⟩

theorem frames_cross_the_wire_mapped :
    ∃ bytes, writeFrames [mappedAnswer.frame, pongFrame.frame] = .ok bytes ∧ ∀ rest,
      (readFrames (bytes ++ rest)).frames =
        .resolveOk 1 [.v4 0x08080808 53] :: .pong 7 :: (readFrames rest).frames := by
  obtain ⟨bytes, hbytes, hread⟩ := frames_cross_the_wire [mappedAnswer, pongFrame] (by decide)
  refine ⟨bytes, hbytes, fun rest => ?_⟩
  rw [hread]
  rfl

/-! ### Two HELLOs -/

def MessageType.debug : MessageType → String
  | .hello => "Hello"
  | .resolve => "Resolve"
  | .resolveOk => "ResolveOk"
  | .openTo => "Open"
  | .openOk => "OpenOk"
  | .openError => "OpenError"
  | .data => "Data"
  | .shutdownWrite => "ShutdownWrite"
  | .close => "Close"
  | .windowUpdate => "WindowUpdate"
  | .ping => "Ping"
  | .pong => "Pong"

/- `From<FrameIoError>`, with the text of `read_exact`. -/
def FrameIoError.toMux : FrameIoError → MuxError
  | .unexpectedEof => .transport "early eof"
  | .protocol e => .protocol (.frame e)

/- `handshake` once `own`, which is `Hello::new(role, generation_nonce())`, has been written. -/
def handshake (own : Hello) (reader : Bytes) : Except MuxError (NegotiatedLimits × Bytes) :=
  match readFrame reader with
  | .error e => .error e.toMux
  | .ok (.hello peer, rest) =>
    match own.negotiate peer with
    | .error e => .error (.protocol (.frame e))
    | .ok limits => .ok (limits, rest)
  | .ok (frame, _) =>
    .error (protocolError ("expected HELLO, received " ++ frame.messageType.debug))

/- The smaller of what two HELLOs offer. -/
structure NegotiatedLimits.Least (a b : Hello) (limits : NegotiatedLimits) : Prop where
  maxData : limits.maxData = min a.maxData b.maxData
  receiveWindow : limits.receiveWindow = min a.receiveWindow b.receiveWindow
  maxStreams : limits.maxStreams = min a.maxStreams b.maxStreams

theorem Hello.negotiate_spec (ha : a.validate = .ok ()) (hb : b.validate = .ok ()) :
    if a.role = b.role then a.negotiate b = .error (.sameHelloRole a.role)
    else ∃ limits, a.negotiate b = .ok limits ∧ limits.Least a b := by
  have hrole : b.role ≠ a.role.opposite ↔ a.role = b.role := by
    cases a.role <;> cases b.role <;> simp [Role.opposite]
  generalize hr : a.negotiate b = r
  unfold Hello.negotiate at hr
  split at hr
  · rename_i h
    rw [ha] at h
    cases h
  split at hr
  · rename_i h
    rw [hb] at h
    cases h
  simp only [hrole] at hr
  subst hr
  split
  · rfl
  · exact ⟨_, rfl, rfl, rfl, rfl⟩

theorem NegotiatedLimits.Least.unique {l l' : NegotiatedLimits} (h : l.Least b a)
    (h' : l'.Least a b) : l = l' := by
  cases l
  cases l'
  obtain ⟨hdata, hwindow, hstreams⟩ := h
  obtain ⟨hdata', hwindow', hstreams'⟩ := h'
  simp_all [min_comm]

/-- Two valid HELLOs of different ends: both ends go on with the same limits, none above what
either has offered, and right behind the other's HELLO, whatever is written there. Two HELLOs of
one end are refused on both sides. -/
theorem handshake_agrees (ha : a.Typed) (hb : b.Typed) (hva : a.validate = .ok ())
    (hvb : b.validate = .ok ()) :
    ∃ up down, (Frame.hello a).encode = .ok up ∧ (Frame.hello b).encode = .ok down ∧
      ∀ upRest downRest,
        if a.role = b.role then
          handshake a (down ++ downRest) = .error (.protocol (.frame (.sameHelloRole a.role))) ∧
          handshake b (up ++ upRest) = .error (.protocol (.frame (.sameHelloRole b.role)))
        else ∃ limits, handshake a (down ++ downRest) = .ok (limits, downRest) ∧
          handshake b (up ++ upRest) = .ok (limits, upRest) ∧ limits.Least a b := by
  obtain ⟨up, hup, hreadUp⟩ := readFrame_encode (f := .hello a) ⟨show 0 < 256 ^ 4 by decide, ha⟩ hva
  obtain ⟨down, hdown, hreadDown⟩ := readFrame_encode (f := .hello b) ⟨show 0 < 256 ^ 4 by decide, hb⟩ hvb
  refine ⟨up, down, hup, hdown, fun upRest downRest => ?_⟩
  have hab := Hello.negotiate_spec hva hvb
  have hba := Hello.negotiate_spec hvb hva
  unfold handshake
  rw [hreadUp, hreadDown]
  split at hab
  · rename_i hsame
    rw [if_pos hsame.symm] at hba
    rw [if_pos hsame]
    simp only [Frame.canonical, hab, hba, and_self]
  · rename_i hother
    rw [if_neg (Ne.symm hother)] at hba
    rw [if_neg hother]
    obtain ⟨l, hl, hleast⟩ := hab
    obtain ⟨l', hl', hleast'⟩ := hba
    simp only [Frame.canonical, hl, hl', hleast'.unique hleast]
    exact ⟨l, rfl, rfl, hleast⟩

theorem handshake_agrees_new :
    ∃ up down limits, (Frame.hello (.new .client 7)).encode = .ok up ∧
      (Frame.hello (.new .agent 8)).encode = .ok down ∧
      handshake (.new .client 7) (down ++ pongBytes) = .ok (limits, pongBytes) ∧
      handshake (.new .agent 8) up = .ok (limits, []) := by
  obtain ⟨up, down, hup, hdown, h⟩ := handshake_agrees (a := .new .client 7) (b := .new .agent 8)
    (by constructor <;> decide) (by constructor <;> decide) (by decide) (by decide)
  have hall := h [] pongBytes
  rw [if_neg (by decide), append_nil] at hall
  obtain ⟨limits, hclient, hagent, -⟩ := hall
  exact ⟨up, down, limits, hup, hdown, hclient, hagent⟩

end Alighieri.Rdp
