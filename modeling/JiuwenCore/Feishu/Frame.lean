import JiuwenCore.Lib.Wire
import JiuwenCore.Text
import Mathlib.Data.Nat.Digits.Lemmas

/-!
# The frames of the Feishu channel

The channel speaks with the server in frames over a socket. It answers a ping with a pong, and an
event with an acknowledgement before it hands the event on. A frame is written and read by hand.
-/

namespace JiuwenCore.FeishuChannel

open Wire (Field scan)

/-! ## The codec -/

structure Header where
  key : Str := []
  value : Str := []
  deriving DecidableEq, Repr

structure Frame where
  seqId : UInt64 := 0
  logId : UInt64 := 0
  service : Int32 := 0
  /-- 0 is CONTROL, 1 is DATA. -/
  method : Int32 := 0
  headers : List Header := []
  payload : Str := []
  payloadType : Str := []
  deriving DecidableEq, Repr

def appendVarint (value : Nat) : Str := Wire.varint 9 value

/-- `static_cast<uint64_t>` of an `int32_t`. -/
def toUInt64 (n : Int32) : Nat := (n.toInt % 2 ^ 64).toNat

def encodeHeader (h : Header) : Str :=
  appendVarint (1 <<< 3 ||| 2) ++ (appendVarint h.key.length ++ h.key) ++
    (appendVarint (2 <<< 3 ||| 2) ++ (appendVarint h.value.length ++ h.value))

def encodeFrame (frame : Frame) : Str :=
  (appendVarint (1 <<< 3 ||| 0) ++ appendVarint frame.seqId.toNat) ++
    (appendVarint (2 <<< 3 ||| 0) ++ appendVarint frame.logId.toNat) ++
    (appendVarint (3 <<< 3 ||| 0) ++ appendVarint (toUInt64 frame.service)) ++
    (appendVarint (4 <<< 3 ||| 0) ++ appendVarint (toUInt64 frame.method)) ++
    frame.headers.flatMap (fun h =>
      let hdr := encodeHeader h
      appendVarint (5 <<< 3 ||| 2) ++ (appendVarint hdr.length ++ hdr)) ++
    if frame.payload = [] then []
    else appendVarint (8 <<< 3 ||| 2) ++ (appendVarint frame.payload.length ++ frame.payload)

def takeHeaderField (h : Header) : Field → Option Header
  | .bytes 1 data => some { h with key := data }
  | .bytes 2 data => some { h with value := data }
  | _ => some h

/-- The loop over the fields of a header, `none` where it has not ended in so many rounds. -/
def decodeHeader (rounds : Nat) (data : Str) : Option Header :=
  scan takeHeaderField data rounds 0 {}

def takeFrameField (rounds : Nat) (frame : Frame) : Field → Option Frame
  | .number 1 value => some { frame with seqId := UInt64.ofNat value }
  | .number 2 value => some { frame with logId := UInt64.ofNat value }
  | .number 3 value => some { frame with service := Int32.ofNat value }
  | .number 4 value => some { frame with method := Int32.ofNat value }
  | .bytes 5 data =>
      (decodeHeader rounds data).map fun h =>
        if h.key = [] then frame else { frame with headers := frame.headers ++ [h] }
  | .bytes 6 data | .bytes 7 data => some { frame with payloadType := data }
  | .bytes 8 data => some { frame with payload := data }
  | _ => some frame

/-- The last header of this name gives the type. -/
def typeIn (headers : List Header) (payloadType : Str) : Str :=
  headers.foldl (fun type h => if h.key = lit "type" then h.value else type) payloadType

/-- The loop over the fields of a frame, `none` where a loop has not ended in so many rounds. -/
def decodeFrame (rounds : Nat) (input : Str) : Option Frame :=
  (scan (takeFrameField rounds) input rounds 0 {}).map fun frame =>
    { frame with payloadType := typeIn frame.headers frame.payloadType }

/-! ## What was written is read -/

def headerFields (h : Header) : List Field := [.bytes 1 h.key, .bytes 2 h.value]

def frameFields (frame : Frame) : List Field :=
  [.number 1 frame.seqId.toNat, .number 2 frame.logId.toNat, .number 3 (toUInt64 frame.service),
    .number 4 (toUInt64 frame.method)] ++
    frame.headers.map (fun h => .bytes 5 (encodeHeader h)) ++
    if frame.payload = [] then [] else [.bytes 8 frame.payload]

theorem encodeHeader_eq (h : Header) : encodeHeader h = Wire.write (headerFields h) := by
  simp [encodeHeader, headerFields, Field.write, appendVarint]

theorem encodeFrame_eq (frame : Frame) : encodeFrame frame = Wire.write (frameFields frame) := by
  have hheaders : ∀ headers : List Header,
      Wire.write (headers.map fun h => .bytes 5 (encodeHeader h)) =
        headers.flatMap fun h => appendVarint (5 <<< 3 ||| 2) ++
          (appendVarint (encodeHeader h).length ++ encodeHeader h) := by
    intro headers
    rw [Wire.write, List.flatMap_map]
    rfl
  rw [encodeFrame, frameFields, Wire.write_append, Wire.write_append, hheaders]
  split <;> simp [Field.write, appendVarint]

theorem ofNat_toUInt64 (n : Int32) : Int32.ofNat (toUInt64 n) = n := by
  have hint : n.toInt = n.toBitVec.toInt := rfl
  have hcases := BitVec.toInt_eq_toNat_cond n.toBitVec
  have hlt := n.toBitVec.isLt
  refine Int32.toBitVec.inj (BitVec.eq_of_toNat_eq ?_)
  rw [toUInt64, Int32.toBitVec_ofNat', BitVec.toNat_ofNat, hint, hcases]
  split <;> omega

theorem toUInt64_lt (n : Int32) : toUInt64 n < 2 ^ 64 := by
  rw [toUInt64]
  omega

theorem decodeHeader_encodeHeader {h : Header} (hsize : (encodeHeader h).length < 2 ^ 64)
    {rounds : Nat} (hrounds : 2 ≤ rounds) : decodeHeader rounds (encodeHeader h) = some h := by
  rw [encodeHeader_eq] at hsize ⊢
  have hfits : ∀ field ∈ headerFields h, field.Fits := by
    simp [headerFields, Field.Fits]
  exact Wire.scan_write hfits hsize rfl hrounds

/-- The frame as it arrives: without headers that have no name, and with the type that the others
give. -/
def received (frame : Frame) : Frame :=
  let headers := frame.headers.filter (·.key ≠ [])
  { frame with headers := headers, payloadType := typeIn headers [] }

theorem takeHeaders {rounds : Nat} (hrounds : 2 ≤ rounds) {headers : List Header}
    (hsize : ∀ h ∈ headers, (encodeHeader h).length < 2 ^ 64) (frame : Frame) :
    (headers.map fun h => Field.bytes 5 (encodeHeader h)).foldlM (takeFrameField rounds) frame =
      some { frame with headers := frame.headers ++ headers.filter (·.key ≠ []) } := by
  induction headers generalizing frame with
  | nil => simp
  | cons h headers ih =>
      obtain ⟨hfirst, hrest⟩ := List.forall_mem_cons.mp hsize
      rw [List.map_cons, List.foldlM_cons, takeFrameField, decodeHeader_encodeHeader hfirst hrounds,
        Option.map_some]
      refine (ih hrest _).trans ?_
      by_cases hkey : h.key = []
      · rw [if_pos hkey, List.filter_cons_of_neg (by simpa using hkey)]
      · rw [if_neg hkey, List.filter_cons_of_pos (by simpa using hkey), List.append_assoc]
        rfl

theorem takeFields {rounds : Nat} (hrounds : 2 ≤ rounds) {frame : Frame}
    (hsize : ∀ h ∈ frame.headers, (encodeHeader h).length < 2 ^ 64) :
    (frameFields frame).foldlM (takeFrameField rounds) {} =
      some { received frame with payloadType := [] } := by
  rw [frameFields, List.foldlM_append, List.foldlM_append]
  have hnumbers : ([.number 1 frame.seqId.toNat, .number 2 frame.logId.toNat,
      .number 3 (toUInt64 frame.service), .number 4 (toUInt64 frame.method)] : List Field).foldlM
        (takeFrameField rounds) {} =
      some { seqId := frame.seqId, logId := frame.logId, service := frame.service,
             method := frame.method } := by
    simp [takeFrameField, ofNat_toUInt64]
  rw [hnumbers]
  dsimp only [Option.bind_eq_bind, Option.bind_some]
  rw [takeHeaders hrounds hsize]
  dsimp only [Option.bind_some]
  split
  · rename_i hempty
    simp [received, hempty]
  · simp [received, takeFrameField]

theorem frameFields_fit (frame : Frame) : ∀ field ∈ frameFields frame, field.Fits := by
  intro field hfield
  rw [frameFields, List.mem_append, List.mem_append] at hfield
  rcases hfield with (hfield | hfield) | hfield
  · have hseqId := frame.seqId.toNat_lt
    have hlogId := frame.logId.toNat_lt
    have hservice := toUInt64_lt frame.service
    have hmethod := toUInt64_lt frame.method
    simp only [List.mem_cons, List.not_mem_nil, or_false] at hfield
    rcases hfield with rfl | rfl | rfl | rfl <;> exact ⟨by decide, by assumption⟩
  · obtain ⟨h, -, rfl⟩ := List.mem_map.mp hfield
    exact (by decide : 5 < 2 ^ 29)
  · split at hfield
    · cases hfield
    · rw [List.mem_singleton.mp hfield]
      exact (by decide : 8 < 2 ^ 29)

/-- A part of a frame is no longer than the frame. -/
theorem length_header_le {frame : Frame} {h : Header} (hmem : h ∈ frame.headers) :
    (encodeHeader h).length ≤ (encodeFrame frame).length := by
  have hinside : Field.bytes 5 (encodeHeader h) ∈ frameFields frame :=
    List.mem_append_left _ (List.mem_append_right _ (List.mem_map_of_mem hmem))
  rw [encodeFrame_eq]
  exact (Wire.length_le_of_mem hinside).trans' (Wire.Field.length_data_le _ _)

theorem decodeFrame_written {frame : Frame} (hsize : (encodeFrame frame).length < 2 ^ 64)
    {rounds : Nat} (hrounds : (encodeFrame frame).length ≤ rounds) :
    decodeFrame rounds (encodeFrame frame) = some (received frame) := by
  have hheaders : ∀ h ∈ frame.headers, (encodeHeader h).length < 2 ^ 64 := fun h hmem =>
    Nat.lt_of_le_of_lt (length_header_le hmem) hsize
  have hfour : 4 ≤ (frameFields frame).length := by
    rw [frameFields, List.length_append, List.length_append, Nat.add_assoc]
    exact Nat.le_add_right 4 _
  rw [encodeFrame_eq] at hsize hrounds ⊢
  have hfields := Wire.length_le_write (frameFields frame)
  have hscan := Wire.scan_write (frameFields_fit frame) hsize
    (takeFields (show 2 ≤ rounds by omega) hheaders) (by omega : _ ≤ rounds)
  rw [decodeFrame, hscan]
  rfl

/-- What `EncodeFrame` writes, `DecodeFrame` reads: everything but the headers without a name and
the type, which it takes from the last header that is named so. -/
theorem decodeFrame_encodeFrame {frame : Frame} (hsize : (encodeFrame frame).length < 2 ^ 64)
    {rounds : Nat} (hrounds : (encodeFrame frame).length ≤ rounds) :
    decodeFrame rounds (encodeFrame frame) = some (received frame) :=
  decodeFrame_written hsize hrounds

/-- A ping with a negative service and a header without a name. -/
def demoPing : Frame :=
  { seqId := 300, service := -2, payload := lit "p",
    headers := [{ value := lit "x" }, { key := lit "type", value := lit "ping" }] }

theorem decodeFrame_encodeFrame_demo :
    decodeFrame 64 (encodeFrame demoPing) = some (received demoPing) ∧
      (received demoPing).headers = [{ key := lit "type", value := lit "ping" }] ∧
      (received demoPing).payloadType = lit "ping" :=
  ⟨decodeFrame_encodeFrame (by decide +kernel) (by decide +kernel), by decide, by decide⟩

/-! ## Answers -/

/-- What the channel does with a frame. -/
inductive Reaction where
  | send (data : Str)
  /-- It notes the time of the last pong. -/
  | alive
  | dispatchEvent (eventPayload : Str)
  deriving DecidableEq, Repr

def pong (frame : Frame) : Frame :=
  { logId := frame.logId, service := frame.service, method := 0,
    headers := [{ key := lit "type", value := lit "pong" }], payload := frame.payload }

def handleControlFrame (frame : Frame) : List Reaction :=
  if frame.payloadType = lit "ping" then [.send (encodeFrame (pong frame))]
  else if frame.payloadType = lit "pong" then [.alive]
  else []

/-- The acknowledgement; it says how many milliseconds it took. -/
def ack (bizRtMs : Nat) (eventFrame : Frame) : Frame :=
  { seqId := eventFrame.seqId, logId := eventFrame.logId, service := eventFrame.service,
    method := eventFrame.method,
    headers := eventFrame.headers ++ [{ key := lit "biz_rt", value := toDecimal bizRtMs }],
    payload := lit "\x7b\"code\":200\x7d" }

def handleDataFrame (bizRtMs : Nat) (frame : Frame) : List Reaction :=
  if frame.payloadType ≠ lit "event" then []
  else [.send (encodeFrame (ack bizRtMs frame)), .dispatchEvent frame.payload]

/-- `HandleFrame`, `none` where it has not come to the end of the frame in so many rounds. -/
def handleFrame (rounds bizRtMs : Nat) (rawData : Str) : Option (List Reaction) :=
  (decodeFrame rounds rawData).map fun frame =>
    if frame.method = 0 then handleControlFrame frame
    else if frame.method = 1 then handleDataFrame bizRtMs frame
    else []

/-- The acknowledgement says of itself what the event says. -/
theorem received_ack (bizRtMs : Nat) (frame : Frame) :
    received (ack bizRtMs (received frame)) =
      { ack bizRtMs (received frame) with payloadType := (received frame).payloadType } := by
  have hkey : lit "biz_rt" ≠ [] := by decide
  have htype : lit "biz_rt" ≠ lit "type" := by decide
  have hheaders : (ack bizRtMs (received frame)).headers.filter (·.key ≠ []) =
      (ack bizRtMs (received frame)).headers := by
    simp [ack, received, List.filter_append, List.filter_filter, hkey]
  rw [received, hheaders]
  simp [ack, received, typeIn, htype]

@[grind =] def headersText (headers : List Header) : Str :=
  Wire.write (headers.map fun h => .bytes 5 (encodeHeader h))

theorem headersText_filter_le (headers : List Header) (p : Header → Bool) :
    (headersText (headers.filter p)).length ≤ (headersText headers).length := by
  induction headers with
  | nil => exact Nat.le_refl _
  | cons h headers ih =>
      rw [headersText, headersText] at ih ⊢
      by_cases hp : p h = true
      · rw [List.filter_cons_of_pos hp, List.map_cons, List.map_cons, Wire.write_cons,
          Wire.write_cons, List.length_append, List.length_append]
        exact Nat.add_le_add_left ih _
      · rw [List.filter_cons_of_neg hp, List.map_cons, Wire.write_cons, List.length_append]
        exact Nat.le_trans ih (Nat.le_add_left _ _)

theorem length_bytes_le (id : Nat) (data : Str) :
    (Field.bytes id data).write.length ≤ 20 + data.length := by
  have htag := Wire.length_varint_le 9 (id <<< 3 ||| 2)
  have hlen := Wire.length_varint_le 9 data.length
  rw [Field.write, List.length_append, List.length_append]
  omega

theorem headersText_singleton_le (h : Header) :
    (headersText [h]).length ≤ 60 + h.key.length + h.value.length := by
  have hkey := length_bytes_le 1 h.key
  have hvalue := length_bytes_le 2 h.value
  have hheader := length_bytes_le 5 (encodeHeader h)
  have hparts : (encodeHeader h).length =
      (Field.bytes 1 h.key).write.length + (Field.bytes 2 h.value).write.length := by
    rw [encodeHeader_eq, headerFields, Wire.write_cons, Wire.write_cons, Wire.write_nil,
      List.append_nil, List.length_append]
  have hone : headersText [h] = (Field.bytes 5 (encodeHeader h)).write := by
    rw [headersText, List.map_cons, List.map_nil, Wire.write_cons, Wire.write_nil, List.append_nil]
  rw [hone]
  omega

/-- The parts of a frame, and the frame by its parts. -/
theorem encodeFrame_length (frame : Frame) :
    (headersText frame.headers).length ≤ (encodeFrame frame).length ∧
      frame.payload.length ≤ (encodeFrame frame).length ∧
      (encodeFrame frame).length ≤
        100 + (headersText frame.headers).length + frame.payload.length := by
  have hnumbers : ∀ id value, (Field.number id value).write.length ≤ 20 := by
    intro id value
    have htag := Wire.length_varint_le 9 (id <<< 3 ||| 0)
    have hvalue := Wire.length_varint_le 9 value
    rw [Field.write, List.length_append]
    omega
  have hseqId := hnumbers 1 frame.seqId.toNat
  have hlogId := hnumbers 2 frame.logId.toNat
  have hservice := hnumbers 3 (toUInt64 frame.service)
  have hmethod := hnumbers 4 (toUInt64 frame.method)
  have hpayload := length_bytes_le 8 frame.payload
  have hdata := Wire.Field.length_data_le 8 frame.payload
  rw [encodeFrame_eq, frameFields, Wire.write_append, Wire.write_append, List.length_append,
    List.length_append, ← headersText]
  simp only [Wire.write_cons, Wire.write_nil, List.length_append, List.length_nil]
  split
  · rename_i hempty
    rw [hempty]
    simp only [Wire.write_nil, List.length_nil]
    omega
  · simp only [Wire.write_cons, Wire.write_nil, List.length_append, List.length_nil]
    omega

theorem length_pong_lt {frame : Frame} (hsize : (encodeFrame frame).length < 2 ^ 63) :
    (encodeFrame (pong (received frame))).length < 2 ^ 64 := by
  obtain ⟨-, hpayload, -⟩ := encodeFrame_length frame
  obtain ⟨-, -, hpong⟩ := encodeFrame_length (pong (received frame))
  have hheaders : (headersText (pong (received frame)).headers).length = 14 := by
    change (headersText [{ key := lit "type", value := lit "pong" }]).length = 14
    decide
  have hsame : (pong (received frame)).payload = frame.payload := rfl
  rw [hheaders, hsame] at hpong
  omega

theorem length_ack_lt {frame : Frame} (hsize : (encodeFrame frame).length < 2 ^ 63) {bizRtMs : Nat}
    (hms : bizRtMs < 2 ^ 63) : (encodeFrame (ack bizRtMs (received frame))).length < 2 ^ 64 := by
  obtain ⟨hheaders, -, -⟩ := encodeFrame_length frame
  obtain ⟨-, -, hack⟩ := encodeFrame_length (ack bizRtMs (received frame))
  have hfiltered := headersText_filter_le frame.headers (·.key ≠ [])
  have hdecimal : (toDecimal bizRtMs).length ≤ 19 := by
    rw [toDecimal]
    split
    · decide
    · rw [List.length_map, List.length_reverse]
      exact (Nat.digits_length_le_iff (by decide) _).mpr (Nat.lt_trans hms (by decide))
  have hlast : (headersText [{ key := lit "biz_rt", value := toDecimal bizRtMs }]).length ≤
      60 + (lit "biz_rt").length + (toDecimal bizRtMs).length := headersText_singleton_le _
  have hkey : (lit "biz_rt").length = 6 := rfl
  have hpayload : (ack bizRtMs (received frame)).payload.length = 12 := rfl
  have hparts : (headersText (ack bizRtMs (received frame)).headers).length =
      (headersText (frame.headers.filter (·.key ≠ []))).length +
        (headersText [{ key := lit "biz_rt", value := toDecimal bizRtMs }]).length := by
    rw [headersText, headersText, headersText, ← List.length_append, ← Wire.write_append,
      ← List.map_append]
    rfl
  omega

/-- A frame of the peer is answered: a ping by a pong in which the peer reads the payload that it
has sent; an event by an acknowledgement in which it reads the number and the headers of the event,
before exactly the payload of the event is handed on. A pong is not answered. -/
theorem handleFrame_answers {frame : Frame} (hsize : (encodeFrame frame).length < 2 ^ 63)
    {rounds : Nat} (hrounds : 2 ^ 64 ≤ rounds) {bizRtMs : Nat} (hms : bizRtMs < 2 ^ 63) :
    (frame.method = 0 → (received frame).payloadType = lit "ping" →
      ∃ data, handleFrame rounds bizRtMs (encodeFrame frame) = some [.send data] ∧
        decodeFrame rounds data =
          some { pong frame with payloadType := lit "pong" }) ∧
      (frame.method = 0 → (received frame).payloadType = lit "pong" →
        handleFrame rounds bizRtMs (encodeFrame frame) = some [.alive]) ∧
      (frame.method = 1 → (received frame).payloadType = lit "event" →
        ∃ data, handleFrame rounds bizRtMs (encodeFrame frame) =
            some [.send data, .dispatchEvent frame.payload] ∧
          decodeFrame rounds data =
            some { ack bizRtMs (received frame) with payloadType := lit "event" }) := by
  have hframe : decodeFrame rounds (encodeFrame frame) = some (received frame) :=
    decodeFrame_written (Nat.lt_trans hsize (by decide)) (by omega)
  have hhandle : handleFrame rounds bizRtMs (encodeFrame frame) =
      some (if frame.method = 0 then handleControlFrame (received frame)
        else if frame.method = 1 then handleDataFrame bizRtMs (received frame) else []) := by
    rw [handleFrame, hframe]
    rfl
  refine ⟨fun hmethod htype => ?_, fun hmethod htype => ?_, fun hmethod htype => ?_⟩
  · have hlength := length_pong_lt hsize
    refine ⟨encodeFrame (pong (received frame)), ?_, ?_⟩
    · rw [hhandle, if_pos hmethod, handleControlFrame, if_pos htype]
    · rw [decodeFrame_encodeFrame hlength (by omega)]
      rfl
  · rw [hhandle, if_pos hmethod, handleControlFrame, if_neg (by rw [htype]; decide), if_pos htype]
  · have hlength := length_ack_lt hsize hms
    refine ⟨encodeFrame (ack bizRtMs (received frame)), ?_, ?_⟩
    · rw [hhandle, if_neg (by rw [hmethod]; decide), if_pos hmethod, handleDataFrame,
        if_neg (not_not.mpr htype)]
      rfl
    · rw [decodeFrame_encodeFrame hlength (by omega), received_ack, htype]

theorem handleFrame_answers_demo :
    ∃ data, handleFrame (2 ^ 64) 3 (encodeFrame demoPing) = some [.send data] ∧
      decodeFrame (2 ^ 64) data = some { pong demoPing with payloadType := lit "pong" } :=
  (handleFrame_answers (by decide +kernel) (Nat.le_refl _) (by decide)).1 rfl (by decide)

/-! ## Coming to the end -/

/-- Neither the frame nor a header in it has a length that takes the position around. -/
def Calm (input : Str) : Prop :=
  Wire.Steady input ∧ ∀ pos, Wire.Stands input pos → pos < input.length → ∀ data,
    (Wire.readField input pos).1 = some (.bytes 5 data) → Wire.Steady data

theorem decodeHeader_ends {data : Str} (hsize : data.length < 2 ^ 64) (hsteady : Wire.Steady data)
    {rounds : Nat} (hrounds : data.length ≤ rounds) : (decodeHeader rounds data).isSome := by
  have htake : ∀ field h, (takeHeaderField h field).isSome := by
    intro field h
    unfold takeHeaderField
    split <;> rfl
  obtain ⟨h, hscan⟩ := Option.isSome_iff_exists.mp
    (Wire.scan_ends hsize hsteady (fun _ _ _ field _ h => htake field h) ({} : Header))
  rw [decodeHeader, Wire.scan_mono hrounds hscan]
  rfl

theorem takeFrameField_isSome {rounds : Nat} {field : Field}
    (hheader : ∀ data, field = .bytes 5 data → (decodeHeader rounds data).isSome) (frame : Frame) :
    (takeFrameField rounds frame field).isSome := by
  unfold takeFrameField
  split
  · rfl
  · rfl
  · rfl
  · rfl
  · rw [Option.isSome_map]
    exact hheader _ rfl
  · rfl
  · rfl
  · rfl
  · rfl

end JiuwenCore.FeishuChannel
