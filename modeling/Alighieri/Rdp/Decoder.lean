import Alighieri.Rdp.RoundTrip
import Alighieri.Lib.Framing

/-!
# The incremental decoder (protocol.rs:634-748)

`FrameDecoder` keeps what it has not decoded in a buffer with a start offset, compacts the buffer
lazily and takes a large chunk in bounded slices. However the stream is cut, it yields what
reading whole frames one after the other yields.
-/

namespace Alighieri.Rdp
open Net Endian List Except

def maxDecoderBuffered : ℕ := 2 * (headerLen + maxFramePayload)

/- One turn of the loop in `decode_available`: the next frame with its length, if
it is complete. -/
def nextFrame (remaining : Bytes) : Except ProtocolError (Option (Frame × ℕ)) := do
  if remaining.length < headerLen then .ok none
  else
    let header ← Header.decode (remaining.take headerLen)
    if remaining.length < headerLen + header.payloadLen then .ok none
    else
      let frame ← decodePayload header ((remaining.drop headerLen).take header.payloadLen)
      .ok (some (frame, headerLen + header.payloadLen))

structure FrameDecoder where
  buffer : Bytes
  start : ℕ
  start_le : start ≤ buffer.length

variable {s : Bytes} {e : ProtocolError} {d : FrameDecoder}

/-! ### What the next bytes can be -/

theorem nextFrame_of_header (hlen : headerLen ≤ s.length) :
    nextFrame s = Header.decode (s.take headerLen) >>= fun header =>
      if s.length < headerLen + header.payloadLen then .ok none
      else decodePayload header ((s.drop headerLen).take header.payloadLen) >>= fun frame =>
        .ok (some (frame, headerLen + header.payloadLen)) := by
  unfold nextFrame
  rw [if_neg (Nat.not_lt.mpr hlen)]

theorem nextFrame_item {frame : Frame} {n : ℕ} (h : nextFrame s = .ok (some (frame, n))) :
    ∃ header, headerLen ≤ s.length ∧ Header.decode (s.take headerLen) = .ok header ∧
      n = headerLen + header.payloadLen ∧ n ≤ s.length ∧
      decodePayload header ((s.drop headerLen).take header.payloadLen) = .ok frame := by
  by_cases hlen : s.length < headerLen
  · simp [nextFrame, hlen] at h
  · have hlen := Nat.le_of_not_lt hlen
    rw [nextFrame_of_header hlen] at h
    obtain ⟨header, hheader, h⟩ := of_bind_ok h
    split at h
    · cases h
    rename_i hwhole
    obtain ⟨found, hfound, h⟩ := of_bind_ok h
    cases h
    exact ⟨header, hlen, hheader, rfl, Nat.le_of_not_lt hwhole, hfound⟩

theorem take_header_append (t : Bytes) (h : headerLen ≤ s.length) :
    (s ++ t).take headerLen = s.take headerLen :=
  take_append_of_le_length h

theorem take_payload_append (t : Bytes) {len : ℕ} (h : headerLen + len ≤ s.length) :
    ((s ++ t).drop headerLen).take len = (s.drop headerLen).take len := by
  rw [drop_append_of_le_length (by omega), take_append_of_le_length]
  rw [length_drop]
  omega

theorem nextFrame_item_append {x : Frame × ℕ} (t : Bytes) (h : nextFrame s = .ok (some x)) :
    nextFrame (s ++ t) = .ok (some x) := by
  obtain ⟨header, hlen, hheader, hn, hwhole, hframe⟩ := nextFrame_item h
  rw [nextFrame_of_header (by rw [length_append]; omega), take_header_append t hlen,
    bind_of_ok hheader, if_neg (by rw [length_append]; omega),
    take_payload_append t (by omega), bind_of_ok hframe, ← hn]

theorem nextFrame_error_append (t : Bytes) (h : nextFrame s = .error e) :
    nextFrame (s ++ t) = .error e := by
  by_cases hlen : s.length < headerLen
  · simp [nextFrame, hlen] at h
  · have hlen := Nat.le_of_not_lt hlen
    rw [nextFrame_of_header hlen] at h
    rw [nextFrame_of_header (by rw [length_append]; omega), take_header_append t hlen]
    cases hheader : Header.decode (s.take headerLen) with
    | error e' =>
      rw [hheader] at h
      exact h
    | ok header =>
      rw [bind_of_ok hheader] at h
      rw [bind_of_ok rfl]
      split at h
      · cases h
      · rw [if_neg (by rw [length_append]; omega), take_payload_append t (by omega)]
        exact h

/- ALRD as a framing. -/
def alrd : Framing ProtocolError Frame UInt8 where
  next := nextFrame
  progress := by
    intro s frame n h
    obtain ⟨header, -, -, hn, hle, -⟩ := nextFrame_item h
    refine ⟨?_, hle⟩
    unfold headerLen at hn
    omega
  item_append := nextFrame_item_append
  error_append := nextFrame_error_append

theorem length_of_idle (h : nextFrame s = .ok none) : s.length < headerLen + maxFramePayload := by
  by_cases hlen : s.length < headerLen
  · omega
  · rw [nextFrame_of_header (Nat.le_of_not_lt hlen)] at h
    obtain ⟨header, hheader, h⟩ := of_bind_ok h
    have hpayload := ((Header.decode_meets _).1 header hheader).2
    split at h
    · omega
    · obtain ⟨frame, -, h⟩ := of_bind_ok h
      cases h

theorem nextFrame_fault (h : nextFrame s = .error e) : Fault e := by
  have hmeets : (nextFrame s).Meets (fun _ => True) Fault := by
    by_cases hlen : s.length < headerLen
    · rw [show nextFrame s = .ok none by simp [nextFrame, hlen]]
      exact .ok trivial
    · rw [nextFrame_of_header (Nat.le_of_not_lt hlen)]
      refine (Header.decode_meets _).bind fun header _ => ?_
      split
      · exact .ok trivial
      · exact (decodePayload_meets header _).bind fun frame _ => .ok trivial
  exact hmeets.2 e h

/-! ### The decoder -/

namespace FrameDecoder

def new : FrameDecoder := ⟨[], 0, Nat.le_refl 0⟩

def remaining (d : FrameDecoder) : Bytes := d.buffer.drop d.start

def bufferedLen (d : FrameDecoder) : ℕ := d.buffer.length - d.start

@[simp] theorem remaining_length (d : FrameDecoder) : d.remaining.length = d.bufferedLen :=
  length_drop

def skip (d : FrameDecoder) (n : ℕ) (h : n ≤ d.remaining.length) : FrameDecoder where
  buffer := d.buffer
  start := d.start + n
  start_le := by
    have hstart := d.start_le
    rw [remaining_length] at h
    unfold bufferedLen at h
    omega

/- The result, with the decoder and the frames it leaves. -/
def decodeAvailable (d : FrameDecoder) (frames : List Frame) :
    Except ProtocolError Unit × FrameDecoder × List Frame :=
  match _h : nextFrame d.remaining with
  | .error e => (.error e, d, frames)
  | .ok none => (.ok (), d, frames)
  | .ok (some (frame, n)) =>
    (d.skip n (alrd.progress _h).2).decodeAvailable (frames ++ [frame])
termination_by d.bufferedLen
decreasing_by
  have hn := alrd.progress _h
  rw [remaining_length] at hn
  simp only [skip, bufferedLen] at hn ⊢
  omega

def compact (d : FrameDecoder) : FrameDecoder := ⟨d.remaining, 0, Nat.zero_le _⟩

def compactIfWorthwhile (d : FrameDecoder) : FrameDecoder :=
  if d.start = d.buffer.length then new
  else if headerLen + maxFramePayload ≤ d.start then d.compact
  else d

def extend (d : FrameDecoder) (bytes : Bytes) : FrameDecoder where
  buffer := d.buffer ++ bytes
  start := d.start
  start_le := by
    have hstart := d.start_le
    rw [length_append]
    omega

def pushLoop (d : FrameDecoder) (input : Bytes) (frames : List Frame) :
    Except ProtocolError (List Frame) × FrameDecoder :=
  if _h : input = [] then (.ok frames, d.compactIfWorthwhile)
  else if maxDecoderBuffered < d.compact.bufferedLen then (.error .decoderBufferLimit, d.compact)
  else
    let available := maxDecoderBuffered - d.compact.bufferedLen
    if _ha : available = 0 then (.error .decoderBufferLimit, d.compact)
    else
      let take := min available input.length
      match (d.compact.extend (input.take take)).decodeAvailable frames with
      | (.error e, d, _) => (.error e, d)
      | (.ok _, d, frames) => d.pushLoop (input.drop take) frames
termination_by input.length
decreasing_by
  have hpos := length_pos_iff.mpr _h
  rw [length_drop]
  omega

def push (d : FrameDecoder) (input : Bytes) : Except ProtocolError (List Frame) × FrameDecoder :=
  match d.decodeAvailable [] with
  | (.error e, d, _) => (.error e, d)
  | (.ok _, d, frames) => d.pushLoop input frames

def feed (d : FrameDecoder) : List Bytes → List (Except ProtocolError (List Frame)) × FrameDecoder
  | [] => ([], d)
  | chunk :: chunks =>
    let later := (d.push chunk).2.feed chunks
    ((d.push chunk).1 :: later.1, later.2)

/-! ### The buffer is the unread suffix -/

@[simp] theorem remaining_new : new.remaining = [] := rfl

@[simp] theorem remaining_skip (d : FrameDecoder) (n : ℕ) (h : n ≤ d.remaining.length) :
    (d.skip n h).remaining = d.remaining.drop n := by
  simp only [remaining, skip, drop_drop]

@[simp] theorem remaining_compact (d : FrameDecoder) : d.compact.remaining = d.remaining := rfl

@[simp] theorem remaining_compactIfWorthwhile (d : FrameDecoder) :
    d.compactIfWorthwhile.remaining = d.remaining := by
  unfold compactIfWorthwhile
  split
  · rename_i hall
    rw [remaining_new, remaining, hall, drop_length]
  · split
    · rfl
    · rfl

@[simp] theorem remaining_extend (d : FrameDecoder) (bytes : Bytes) :
    (d.extend bytes).remaining = d.remaining ++ bytes :=
  drop_append_of_le_length d.start_le

theorem decodeAvailable_cases (d : FrameDecoder) (frames : List Frame) :
    (∃ e d' frames', d.decodeAvailable frames = (.error e, d', frames') ∧
        (alrd.parse d.remaining).error = some e ∧
        d'.remaining = (alrd.parse d.remaining).rest) ∨
      ∃ d', d.decodeAvailable frames =
          (.ok (), d', frames ++ (alrd.parse d.remaining).items) ∧
        (alrd.parse d.remaining).error = none ∧
        d'.remaining = (alrd.parse d.remaining).rest := by
  fun_induction decodeAvailable d frames with
  | case1 d frames e h =>
    rw [alrd.parse_of_error h]
    exact .inl ⟨e, d, frames, rfl, rfl, rfl⟩
  | case2 d frames h =>
    rw [alrd.parse_of_idle h, append_nil]
    exact .inr ⟨d, rfl, rfl, rfl⟩
  | case3 d frames frame n h ih =>
    rw [remaining_skip, append_assoc] at ih
    rw [alrd.parse_of_item h]
    exact ih

/-- What a call makes of the stream: `s` is what the decoder had not decoded
before it and the bytes it is given, `frames` what it has collected already. -/
structure Pushed (s : Bytes) (frames : List Frame)
    (out : Except ProtocolError (List Frame) × FrameDecoder) : Prop where
  ok : (alrd.parse s).error = none →
    out.1 = .ok (frames ++ (alrd.parse s).items) ∧ out.2.remaining = (alrd.parse s).rest
  error : ∀ e, (alrd.parse s).error = some e →
    out.1 = .error e ∧ nextFrame out.2.remaining = .error e

theorem Pushed.idle (frames : List Frame) (hidle : nextFrame s = .ok none) (hd : d.remaining = s) :
    Pushed s frames (.ok frames, d) := by
  have hparse := alrd.parse_of_idle hidle
  refine ⟨?_, ?_⟩
  · intro _
    rw [hparse, append_nil]
    exact ⟨rfl, hd⟩
  · intro e he
    rw [hparse] at he
    cases he

theorem Pushed.stuck (t : Bytes) (frames : List Frame) (he : (alrd.parse s).error = some e)
    (hd : d.remaining = (alrd.parse s).rest) : Pushed (s ++ t) frames (.error e, d) := by
  have hall := alrd.parse_append_of_error t he
  refine ⟨?_, ?_⟩
  · intro hnone
    rw [hall] at hnone
    cases hnone
  · intro e' he'
    rw [hall] at he'
    cases he'
    refine ⟨rfl, ?_⟩
    rw [hd]
    exact alrd.next_rest_of_error he

theorem Pushed.resume {t : Bytes} {frames : List Frame}
    {out : Except ProtocolError (List Frame) × FrameDecoder} (hs : (alrd.parse s).error = none)
    (h : Pushed ((alrd.parse s).rest ++ t) (frames ++ (alrd.parse s).items) out) :
    Pushed (s ++ t) frames out := by
  have hall := alrd.parse_append t hs
  refine ⟨?_, ?_⟩
  · intro hnone
    rw [hall] at hnone ⊢
    rw [← append_assoc]
    exact h.ok hnone
  · intro e he
    rw [hall] at he
    exact h.error e he

/- Each round starts with less than one frame in the buffer, so there is room. -/
theorem pushLoop_pushed (d : FrameDecoder) (input : Bytes) (frames : List Frame)
    (hidle : nextFrame d.remaining = .ok none) :
    Pushed (d.remaining ++ input) frames (d.pushLoop input frames) := by
  induction hn : input.length using Nat.strongRecOn generalizing d input frames with
  | ind n ih =>
    have hroom : d.compact.bufferedLen < headerLen + maxFramePayload := by
      have hlen := length_of_idle hidle
      rwa [← remaining_compact, remaining_length] at hlen
    have hlimit : maxDecoderBuffered = 2 * (headerLen + maxFramePayload) := rfl
    unfold pushLoop
    split
    · rename_i hempty
      rw [hempty, append_nil]
      exact .idle frames hidle (remaining_compactIfWorthwhile d)
    · rename_i hne
      have hpos := length_pos_iff.mpr hne
      rw [if_neg (by omega)]
      dsimp only
      rw [dif_neg (by omega)]
      generalize htake : min (maxDecoderBuffered - d.compact.bufferedLen) input.length = take
      have hsplit : d.remaining ++ input = (d.remaining ++ input.take take) ++ input.drop take := by
        rw [append_assoc, take_append_drop]
      rw [hsplit]
      rcases (d.compact.extend (input.take take)).decodeAvailable_cases frames with
        ⟨e, d', frames', hout, herr, hrest⟩ | ⟨d', hout, herr, hrest⟩
      · rw [remaining_extend, remaining_compact] at herr hrest
        rw [hout]
        exact .stuck _ frames herr hrest
      · rw [remaining_extend, remaining_compact] at hout herr hrest
        rw [hout]
        have hidle' : nextFrame d'.remaining = .ok none := by
          rw [hrest]
          exact alrd.next_rest_of_idle herr
        have hlater := ih (input.drop take).length (by rw [length_drop]; omega) d'
          (input.drop take) (frames ++ (alrd.parse (d.remaining ++ input.take take)).items) hidle' rfl
        rw [hrest] at hlater
        exact .resume herr hlater

theorem push_pushed (d : FrameDecoder) (input : Bytes) :
    Pushed (d.remaining ++ input) [] (d.push input) := by
  unfold push
  rcases d.decodeAvailable_cases [] with ⟨e, d', frames', hout, herr, hrest⟩ | ⟨d', hout, herr, hrest⟩
  · rw [hout]
    exact .stuck _ [] herr hrest
  · rw [hout]
    have hidle : nextFrame d'.remaining = .ok none := by
      rw [hrest]
      exact alrd.next_rest_of_idle herr
    have hlater := d'.pushLoop_pushed input ([] ++ (alrd.parse d.remaining).items) hidle
    rw [hrest] at hlater
    exact .resume herr hlater

/-! ### Sequences of pushes -/

theorem parse_of_stuck (t : Bytes) (h : nextFrame s = .error e) :
    (alrd.parse (s ++ t)).error = some e := by
  rw [alrd.parse_of_error (nextFrame_error_append t h)]

theorem push_stuck (input : Bytes) (h : nextFrame d.remaining = .error e) :
    (d.push input).1 = .error e ∧ nextFrame (d.push input).2.remaining = .error e :=
  (d.push_pushed input).error e (parse_of_stuck input h)

theorem feed_stuck (chunks : List Bytes) (h : nextFrame d.remaining = .error e) :
    (d.feed chunks).1 = replicate chunks.length (.error e) ∧
      nextFrame (d.feed chunks).2.remaining = .error e := by
  induction chunks generalizing d with
  | nil => exact ⟨rfl, h⟩
  | cons chunk chunks ih =>
    obtain ⟨hres, hstuck⟩ := push_stuck chunk h
    obtain ⟨hlater, hend⟩ := ih hstuck
    refine ⟨?_, hend⟩
    simp only [feed, hres, hlater, length_cons, replicate_succ]

theorem feed_idle (chunks : List Bytes) (hidle : nextFrame d.remaining = .ok none) :
    ((alrd.parse (d.remaining ++ chunks.flatten)).error = none →
      ∃ groups : List (List Frame), (d.feed chunks).1 = groups.map .ok ∧
        groups.flatten = (alrd.parse (d.remaining ++ chunks.flatten)).items ∧
        (d.feed chunks).2.remaining = (alrd.parse (d.remaining ++ chunks.flatten)).rest) ∧
    ∀ e, (alrd.parse (d.remaining ++ chunks.flatten)).error = some e →
      ∃ (groups : List (List Frame)) (n : ℕ), (d.feed chunks).1 = groups.map .ok ++ replicate (n + 1) (.error e) ∧
        nextFrame (d.feed chunks).2.remaining = .error e := by
  induction chunks generalizing d with
  | nil =>
    rw [flatten_nil, append_nil, alrd.parse_of_idle hidle]
    refine ⟨fun _ => ⟨[], rfl, rfl, rfl⟩, ?_⟩
    intro e he
    cases he
  | cons chunk chunks ih =>
    have hpushed := d.push_pushed chunk
    rw [flatten_cons, ← append_assoc]
    cases herr : (alrd.parse (d.remaining ++ chunk)).error with
    | some e =>
      obtain ⟨hres, hstuck⟩ := hpushed.error e herr
      obtain ⟨hlater, hend⟩ := feed_stuck chunks hstuck
      rw [alrd.parse_append_of_error _ herr]
      refine ⟨nofun, ?_⟩
      intro e' he'
      cases he'
      refine ⟨[], chunks.length, ?_, hend⟩
      simp only [feed, hres, hlater, map_nil, nil_append, replicate_succ]
    | none =>
      obtain ⟨hres, hrest⟩ := hpushed.ok herr
      have hidle' : nextFrame (d.push chunk).2.remaining = .ok none := by
        rw [hrest]
        exact alrd.next_rest_of_idle herr
      obtain ⟨hok, herror⟩ := ih hidle'
      rw [hrest] at hok herror
      rw [alrd.parse_append _ herr]
      refine ⟨?_, ?_⟩
      · intro hnone
        obtain ⟨groups, hfeed, hitems, hend⟩ := hok hnone
        refine ⟨(alrd.parse (d.remaining ++ chunk)).items :: groups, ?_, ?_, hend⟩
        · simp only [feed, hres, hfeed, map_cons, nil_append]
        · rw [flatten_cons, hitems]
      · intro e he
        obtain ⟨groups, n, hfeed, hend⟩ := herror e he
        refine ⟨(alrd.parse (d.remaining ++ chunk)).items :: groups, n, ?_, hend⟩
        simp only [feed, hres, hfeed, map_cons, nil_append, cons_append]

theorem feed_new_ok {chunks : List Bytes} (h : (alrd.parse chunks.flatten).error = none) :
    ∃ groups : List (List Frame), (new.feed chunks).1 = groups.map .ok ∧
      groups.flatten = (alrd.parse chunks.flatten).items ∧
      (new.feed chunks).2.remaining = (alrd.parse chunks.flatten).rest :=
  (feed_idle (d := new) chunks rfl).1 h

theorem feed_new_error {chunks : List Bytes} (h : (alrd.parse chunks.flatten).error = some e) :
    ∃ (groups : List (List Frame)) (n : ℕ), (new.feed chunks).1 = groups.map .ok ++ replicate (n + 1) (.error e) ∧
      nextFrame (new.feed chunks).2.remaining = .error e :=
  (feed_idle (d := new) chunks rfl).2 e h

theorem error_mem_feed (chunks : List Bytes) (e : ProtocolError) :
    .error e ∈ (new.feed chunks).1 ↔ (alrd.parse chunks.flatten).error = some e := by
  cases herr : (alrd.parse chunks.flatten).error with
  | none =>
    obtain ⟨groups, hfeed, -, -⟩ := feed_new_ok herr
    simp [hfeed]
  | some e' =>
    obtain ⟨groups, n, hfeed, -⟩ := feed_new_error herr
    simp [hfeed, eq_comm]

end FrameDecoder

/-! ### Whole frames -/

/- `FrameIoError`; the only transport failure of a byte string is its end. -/
inductive FrameIoError where
  | unexpectedEof
  | protocol (e : ProtocolError)
  deriving DecidableEq, Repr

/- `read_frame` on the bytes a reader still holds. -/
def readFrame (reader : Bytes) : Except FrameIoError (Frame × Bytes) :=
  if reader.length < headerLen then .error .unexpectedEof
  else
    match Header.decode (reader.take headerLen) with
    | .error e => .error (.protocol e)
    | .ok header =>
      if (reader.drop headerLen).length < header.payloadLen then .error .unexpectedEof
      else
        match decodePayload header ((reader.drop headerLen).take header.payloadLen) with
        | .error e => .error (.protocol e)
        | .ok frame => .ok (frame, (reader.drop headerLen).drop header.payloadLen)

theorem readFrame_eq (reader : Bytes) :
    readFrame reader =
      match nextFrame reader with
      | .error e => .error (.protocol e)
      | .ok none => .error .unexpectedEof
      | .ok (some (frame, n)) => .ok (frame, reader.drop n) := by
  unfold readFrame
  split
  · rename_i hlen
    simp [nextFrame, hlen]
  · rename_i hlen
    rw [nextFrame_of_header (Nat.le_of_not_lt hlen), length_drop]
    cases Header.decode (reader.take headerLen) with
    | error e => rfl
    | ok header =>
      dsimp only [bind, Except.bind]
      by_cases hshort : reader.length < headerLen + header.payloadLen
      · rw [if_pos hshort, if_pos (by omega)]
      · rw [if_neg hshort, if_neg (by omega)]
        cases decodePayload header ((reader.drop headerLen).take header.payloadLen) with
        | error e => rfl
        | ok => simp only [drop_drop]

/- Frames read one after the other: those that were whole, why the next read
failed, and the bytes it started at. -/
structure FramesRead where
  frames : List Frame
  stop : FrameIoError
  rest : Bytes

def readFrames (reader : Bytes) : FramesRead :=
  match _h : readFrame reader with
  | .error e => ⟨[], e, reader⟩
  | .ok (frame, rest) =>
    let later := readFrames rest
    ⟨frame :: later.frames, later.stop, later.rest⟩
termination_by reader.length
decreasing_by
  rw [readFrame_eq] at _h
  split at _h
  · cases _h
  · cases _h
  rename_i hnext
  cases _h
  have hn := alrd.progress hnext
  rw [length_drop]
  omega

theorem readFrames_of_error {reader : Bytes} {e : FrameIoError} (h : readFrame reader = .error e) :
    readFrames reader = ⟨[], e, reader⟩ := by
  rw [readFrames]
  split
  · rename_i h'
    rw [h] at h'
    cases h'
    rfl
  · rename_i h'
    rw [h] at h'
    cases h'

theorem readFrames_of_ok {reader rest : Bytes} {frame : Frame}
    (h : readFrame reader = .ok (frame, rest)) :
    readFrames reader =
      ⟨frame :: (readFrames rest).frames, (readFrames rest).stop, (readFrames rest).rest⟩ := by
  rw [readFrames]
  split
  · rename_i h'
    rw [h] at h'
    cases h'
  · rename_i h'
    rw [h] at h'
    cases h'
    rfl

theorem readFrames_eq (s : Bytes) :
    readFrames s = ⟨(alrd.parse s).items,
      ((alrd.parse s).error.map FrameIoError.protocol).getD .unexpectedEof,
      (alrd.parse s).rest⟩ := by
  induction s using alrd.parse_induction with
  | error s e h =>
    have hnext : nextFrame s = .error e := h
    have hread : readFrame s = .error (.protocol e) := by rw [readFrame_eq, hnext]
    rw [readFrames_of_error hread, alrd.parse_of_error h]
    rfl
  | idle s h =>
    have hnext : nextFrame s = .ok none := h
    have hread : readFrame s = .error .unexpectedEof := by rw [readFrame_eq, hnext]
    rw [readFrames_of_error hread, alrd.parse_of_idle h]
    rfl
  | item s frame n h ih =>
    have hnext : nextFrame s = .ok (some (frame, n)) := h
    have hread : readFrame s = .ok (frame, s.drop n) := by rw [readFrame_eq, hnext]
    rw [readFrames_of_ok hread, alrd.parse_of_item h, ih]

theorem stop_eq_protocol (s : Bytes) (e : ProtocolError) :
    (readFrames s).stop = .protocol e ↔ (alrd.parse s).error = some e := by
  rw [readFrames_eq]
  cases (alrd.parse s).error with
  | none | some e' => simp

namespace FrameDecoder

/-- However a stream is cut into chunks, the decoder reports the error `read_frame` stops at, and
every later push repeats it. Without one it yields the same frames and buffers the rest. -/
theorem feed_refines_read_frame (chunks chunks' : List Bytes)
    (hcut : chunks.flatten = chunks'.flatten) :
    (∀ e, .error e ∈ (new.feed chunks).1 ↔ .error e ∈ (new.feed chunks').1) ∧
    (∀ e, .error e ∈ (new.feed chunks).1 ↔ (readFrames chunks.flatten).stop = .protocol e) ∧
    (∀ e, .error e ∈ (new.feed chunks).1 → ∀ later,
      ((new.feed chunks).2.feed later).1 = replicate later.length (.error e)) ∧
    ((∀ e, .error e ∉ (new.feed chunks).1) →
      ∃ groups : List (List Frame), (new.feed chunks).1 = groups.map .ok ∧
        groups.flatten = (readFrames chunks.flatten).frames ∧
        (new.feed chunks).2.remaining = (readFrames chunks.flatten).rest) ∧
    .error .decoderBufferLimit ∉ (new.feed chunks).1 ∧
    ∀ chunk frames, ((new.feed chunks).2.push chunk).1 = .ok frames →
      ((new.feed chunks).2.push chunk).2.bufferedLen < headerLen + maxFramePayload := by
  refine ⟨?_, ?_, ?_, ?_, ?_, ?_⟩
  · intro e
    rw [error_mem_feed, error_mem_feed, hcut]
  · intro e
    rw [error_mem_feed, stop_eq_protocol]
  · intro e he later
    obtain ⟨groups, n, -, hstuck⟩ := feed_new_error ((error_mem_feed chunks e).mp he)
    exact (feed_stuck later hstuck).1
  · intro hnone
    have herr : (alrd.parse chunks.flatten).error = none := by
      cases herr : (alrd.parse chunks.flatten).error with
      | none => rfl
      | some e => exact absurd ((error_mem_feed chunks e).mpr herr) (hnone e)
    rw [readFrames_eq]
    exact feed_new_ok herr
  · intro hlimit
    have hstuck := alrd.next_rest_of_error ((error_mem_feed chunks _).mp hlimit)
    exact nextFrame_fault hstuck rfl
  · intro chunk frames hok
    have hpushed := (new.feed chunks).2.push_pushed chunk
    cases herr : (alrd.parse ((new.feed chunks).2.remaining ++ chunk)).error with
    | some e =>
      rw [(hpushed.error e herr).1] at hok
      cases hok
    | none =>
      rw [← remaining_length, (hpushed.ok herr).2]
      exact length_of_idle (alrd.next_rest_of_idle herr)

def zeros : Bytes := replicate 16 0

/- A whole frame in two pieces, and the same frame with a broken header behind it, cut in two
ways. -/
theorem feed_refines_read_frame_split :
    (∃ groups : List (List Frame),
      (new.feed [pongBytes.take 10, pongBytes.drop 10]).1 = groups.map .ok ∧
        groups.flatten = [.pong 7]) ∧
    .error .invalidMagic ∈ (new.feed [pongBytes, zeros]).1 ∧
    .error .invalidMagic ∈ (new.feed [pongBytes.take 10, pongBytes.drop 10 ++ zeros]).1 ∧
    ((new.feed [pongBytes, zeros]).2.feed [pongBytes, []]).1 =
      [.error .invalidMagic, .error .invalidMagic] := by
  have hwhole : readFrames [pongBytes.take 10, pongBytes.drop 10].flatten =
      ⟨[.pong 7], .unexpectedEof, []⟩ := by
    have hfirst : readFrame [pongBytes.take 10, pongBytes.drop 10].flatten = .ok (.pong 7, []) := rfl
    rw [readFrames_of_ok hfirst, readFrames_of_error rfl]
  have hbroken : readFrames [pongBytes, zeros].flatten =
      ⟨[.pong 7], .protocol .invalidMagic, zeros⟩ := by
    have hfirst : readFrame [pongBytes, zeros].flatten = .ok (.pong 7, zeros) := rfl
    rw [readFrames_of_ok hfirst, readFrames_of_error rfl]
  obtain ⟨-, hstop, -, hgroups, -⟩ := feed_refines_read_frame
    [pongBytes.take 10, pongBytes.drop 10] [pongBytes.take 10, pongBytes.drop 10] rfl
  obtain ⟨hcut, herror, hlater, -⟩ := feed_refines_read_frame [pongBytes, zeros]
    [pongBytes.take 10, pongBytes.drop 10 ++ zeros] rfl
  rw [hwhole] at hstop hgroups
  have hmem := (herror .invalidMagic).mpr (by rw [hbroken])
  refine ⟨?_, hmem, (hcut _).mp hmem, hlater _ hmem _⟩
  obtain ⟨groups, hfed, hframes, -⟩ := hgroups fun e he => nomatch (hstop e).mp he
  exact ⟨groups, hfed, hframes⟩

end FrameDecoder

end Alighieri.Rdp
