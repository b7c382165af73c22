import RoqCme.Lib.Bytes
import RoqCme.Lib.Framing

/-! The byte stream of an iLink session: the framing of outgoing messages (`OrderEntry::send`)
and the reassembly of incoming ones (`protocol/ilink/parser`, `OrderEntry::operator()(Read)`). -/
namespace RoqCme.Ilink
open RoqCme.Lib

inductive ParseError where
  | unexpected
  | subspanOutOfRange
  deriving DecidableEq, Repr

/-- `std::span::subspan`. A count of -1 is `std::dynamic_extent` and means the rest. -/
def subspan (buffer : List UInt8) (offset : Nat) (count : Int) : Except ParseError (List UInt8) :=
  if buffer.length < offset then .error .subspanOutOfRange
  else if count = -1 then .ok (buffer.drop offset)
  else if 0 ≤ count ∧ offset + count.toNat ≤ buffer.length then
    .ok ((buffer.drop offset).take count.toNat)
  else .error .subspanOutOfRange

def encodingType : Nat := 0xCAFE

/-- `parse_helper`: the bytes consumed and the message given to the callback. Zero means that
the message is not there in full. -/
def parseHelper (buffer : List UInt8) : Except ParseError (Nat × Option (List UInt8)) :=
  if buffer.length < 4 then .ok (0, none)
  else if ofLittleEndian ((buffer.drop 2).take 2) ≠ encodingType then .error .unexpected
  else
    let length := ofLittleEndian (buffer.take 2)
    if buffer.length < length then .ok (0, none)
    else
      match subspan buffer 4 ((length : Int) - 4) with
      | .error e => .error e
      | .ok message => .ok (length, some message)

/-- `OrderEntry::send`: the SOFH, a little-endian length and `FE CA`, in front of the message. A
length that does not fit into 16 bits is refused there and never gets this far. -/
def sofh (message : List UInt8) : List UInt8 :=
  toLittleEndian 2 (message.length + 4) ++ [0xFE, 0xCA] ++ message

/-- `OrderEntry::operator()(Read)` on the bytes that have arrived. -/
def onRead (r : Reader UInt8 (List UInt8)) (bytes : List UInt8) :
    Except (PumpError ParseError) (Reader UInt8 (List UInt8)) :=
  r.read parseHelper bytes

def onReads (reads : List (List UInt8)) :
    Except (PumpError ParseError) (Reader UInt8 (List UInt8)) :=
  Reader.run parseHelper reads {}

/-- The sizes from an SBE message header up to what fits into the length field. -/
def ValidSize (message : List UInt8) : Prop :=
  8 ≤ message.length ∧ message.length ≤ 65531

theorem sofh_length (message : List UInt8) : (sofh message).length = message.length + 4 := by
  simp only [sofh, List.length_append, toLittleEndian_length, List.length_cons, List.length_nil]
  omega

/-- The fields of a frame, as the parser reads them. -/
theorem sofh_fields (message tail : List UInt8) (h : ValidSize message) :
    ofLittleEndian ((sofh message ++ tail).take 2) = message.length + 4 ∧
      ofLittleEndian (((sofh message ++ tail).drop 2).take 2) = encodingType ∧
      (sofh message ++ tail).drop 4 = message ++ tail := by
  have hlen : (toLittleEndian 2 (message.length + 4)).length = 2 := toLittleEndian_length 2 _
  have hsplit : sofh message ++ tail =
      toLittleEndian 2 (message.length + 4) ++ ([0xFE, 0xCA] ++ (message ++ tail)) := by
    simp only [sofh, List.append_assoc]
  have hdrop : (sofh message ++ tail).drop 2 = [0xFE, 0xCA] ++ (message ++ tail) := by
    rw [hsplit]
    exact List.drop_left' hlen
  refine ⟨?_, ?_, ?_⟩
  · rw [hsplit, List.take_left' hlen, ofLittleEndian_toLittleEndian]
    have hmax := h.2
    exact Nat.mod_eq_of_lt (by omega)
  · rw [hdrop, List.take_left' (by rfl)]
    decide
  · have h4 : (sofh message ++ tail).drop 4 = ((sofh message ++ tail).drop 2).drop 2 := by
      rw [List.drop_drop]
    rw [h4, hdrop, List.drop_left' (by rfl)]

theorem parseHelper_frame (message tail : List UInt8) (h : ValidSize message) :
    parseHelper (sofh message ++ tail) = .ok ((sofh message).length, some message) := by
  obtain ⟨hlength, hencoding, hbody⟩ := sofh_fields message tail h
  have hsize : (sofh message ++ tail).length = message.length + 4 + tail.length := by
    rw [List.length_append, sofh_length]
  have hcount : ((message.length + 4 : Nat) : Int) - 4 = message.length := by omega
  have hsub : subspan (sofh message ++ tail) 4 (message.length : Int) = .ok message := by
    unfold subspan
    rw [if_neg (by omega), if_neg (by omega), if_pos ⟨by omega, by omega⟩, hbody, Int.toNat_natCast,
      List.take_left]
  unfold parseHelper
  simp only [hlength, hencoding, hsize, hcount, hsub, sofh_length]
  rw [if_neg (by omega), if_neg (by simp), if_neg (by omega)]

/-- A cut inside the header or inside the message: the bytes are left for the next read. -/
theorem parseHelper_part (message part : List UInt8) (h : ValidSize message)
    (hp : part <+: sofh message) (hne : part ≠ sofh message) :
    parseHelper part = .ok (0, none) := by
  obtain ⟨tail, ht⟩ := hp
  have htail : 0 < tail.length := by
    apply List.length_pos_of_ne_nil
    rintro rfl
    rw [List.append_nil] at ht
    exact hne ht
  have hsize : part.length + tail.length = message.length + 4 := by
    rw [← List.length_append, ht, sofh_length]
  obtain ⟨hlength, hencoding, -⟩ := sofh_fields message [] h
  rw [List.append_nil, ← ht] at hlength hencoding
  unfold parseHelper
  by_cases h4 : part.length < 4
  · rw [if_pos h4]
  · rw [List.take_append_of_le_length (by omega)] at hlength
    rw [List.drop_append_of_le_length (by omega), List.take_append_of_le_length
      (by rw [List.length_drop]; omega)] at hencoding
    simp only [hlength, hencoding]
    rw [if_neg h4, if_neg (by simp), if_pos (by omega)]

/-- Frames of valid size satisfy the laws of a framing. -/
def framing : Framing parseHelper where
  frame := sofh
  Valid := ValidSize
  frame_ne_nil m h := by
    have hlen := sofh_length m
    rw [h] at hlen
    simp at hlen
  next_frame := parseHelper_frame
  next_part m part hv hp hne _ := parseHelper_part m part hv hp hne

/-- Reassembly is independent of segmentation. For every way of cutting the stream the reads
hand out the messages, each once and in order; after every single read the undrained bytes are a
proper part of the frame of the next message; and the loop of a read ends on any bytes. -/
theorem reassembly_independent_of_segmentation (messages : List (List UInt8))
    (hv : ∀ message ∈ messages, ValidSize message) (reads : List (List UInt8))
    (hcut : reads.flatten = messages.flatMap sofh) :
    onReads reads = .ok ⟨[], messages⟩ ∧
      (∀ before after, reads = before ++ after → ∃ r rest, onReads before = .ok r ∧
        messages = r.decoded ++ rest ∧
        before.flatten = r.decoded.flatMap sofh ++ r.undrained ∧
        match rest with
        | [] => r.undrained = []
        | message :: _ => r.undrained <+: sofh message ∧ r.undrained ≠ sofh message) ∧
      ∀ (r : Reader UInt8 (List UInt8)) (bytes : List UInt8),
        onRead r bytes ≠ .error .outOfFuel := by
  refine ⟨framing.run_cut messages hv reads hcut, ?_, ?_⟩
  · intro before after hsplit
    have hpre : before.flatten <+: framing.stream messages := by
      refine ⟨after.flatten, ?_⟩
      rw [← List.flatten_append, ← hsplit]
      exact hcut
    obtain ⟨r, hrun, rest, hms, hrec, hpart⟩ := framing.run_inStep messages hv before [] {}
      (framing.inStep_start messages) (by rwa [List.nil_append])
    refine ⟨r, rest, hrun, hms, hrec, ?_⟩
    cases rest with
    | nil => exact hpart
    | cons message rest => exact hpart
  · intro r bytes
    have hpump := pump_terminates parseHelper ((r.undrained ++ bytes).length + 1)
      (r.undrained ++ bytes) (Nat.lt_succ_self _)
    unfold onRead Reader.read
    simp only
    split
    · next e he =>
      intro hx
      cases hx
      exact hpump he
    · simp

/-- Two messages; the first cut is inside the header, the second one inside the second frame. -/
theorem reassembly_independent_of_segmentation_two_messages :
    let messages : List (List UInt8) := [List.replicate 8 1, List.replicate 9 2]
    let stream := messages.flatMap sofh
    onReads [stream.take 3, (stream.drop 3).take 15, stream.drop 18] = .ok ⟨[], messages⟩ :=
  (reassembly_independent_of_segmentation [List.replicate 8 1, List.replicate 9 2]
    (by
      intro message hm
      simp only [List.mem_cons, List.not_mem_nil, or_false] at hm
      obtain rfl | rfl := hm
      · exact ⟨by decide, by decide⟩
      · exact ⟨by decide, by decide⟩)
    _ (by decide +kernel)).1

/-- A frame is incomplete and nothing is called back, or the callback gets the bytes of the frame
behind its header, and exactly these bytes and the header are consumed. -/
def StaysInSync (buffer : List UInt8) : Prop :=
  parseHelper buffer = .ok (0, none) ∨
    ∃ n message, parseHelper buffer = .ok (n, some message) ∧ 4 ≤ n ∧ n ≤ buffer.length ∧
      message = (buffer.drop 4).take (n - 4)

theorem subspan_of_le {buffer : List UInt8} {length : Nat} (h4 : 4 ≤ length)
    (hlength : length ≤ buffer.length) :
    subspan buffer 4 ((length : Int) - 4) = .ok ((buffer.drop 4).take (length - 4)) := by
  have hcount : ((length : Int) - 4).toNat = length - 4 := by omega
  rw [subspan, if_neg (by omega), if_neg (by omega), if_pos ⟨by omega, by omega⟩, hcount]

theorem four_le_of_encoding {buffer : List UInt8}
    (hencoding : (buffer.drop 2).take 2 = [0xFE, 0xCA]) : 4 ≤ buffer.length := by
  have hlen := congrArg List.length hencoding
  rw [List.length_take, List.length_drop, List.length_cons, List.length_singleton] at hlen
  omega

theorem parseHelper_eq {buffer : List UInt8} (hencoding : (buffer.drop 2).take 2 = [0xFE, 0xCA]) :
    parseHelper buffer =
      if buffer.length < ofLittleEndian (buffer.take 2) then .ok (0, none)
      else
        match subspan buffer 4 ((ofLittleEndian (buffer.take 2) : Int) - 4) with
        | .error e => .error e
        | .ok message => .ok (ofLittleEndian (buffer.take 2), some message) := by
  have hsize := four_le_of_encoding hencoding
  have hcode : ofLittleEndian ((buffer.drop 2).take 2) = encodingType := by
    rw [hencoding]
    decide
  rw [parseHelper, if_neg (by omega), if_neg (by simp [hcode])]

/-- For every buffer with the encoding of iLink: the length field counts its own header. -/
theorem stays_in_sync_iff (buffer : List UInt8)
    (hencoding : (buffer.drop 2).take 2 = [0xFE, 0xCA]) :
    StaysInSync buffer ↔ 4 ≤ ofLittleEndian (buffer.take 2) := by
  have hsize := four_le_of_encoding hencoding
  rw [StaysInSync, parseHelper_eq hencoding]
  generalize ofLittleEndian (buffer.take 2) = length
  by_cases hshort : buffer.length < length
  · rw [if_pos hshort]
    exact ⟨fun _ => by omega, fun _ => Or.inl rfl⟩
  · rw [if_neg hshort]
    by_cases h4 : 4 ≤ length
    · rw [subspan_of_le h4 (by omega)]
      exact ⟨fun _ => h4, fun _ => Or.inr ⟨length, _, rfl, h4, by omega, rfl⟩⟩
    · refine ⟨fun hsync => ?_, fun h => absurd h h4⟩
      cases hsub : subspan buffer 4 ((length : Int) - 4) with
      | error e =>
        rw [hsub] at hsync
        obtain h | ⟨n, message, h, -⟩ := hsync
        · cases h
        · cases h
      | ok message =>
        rw [hsub] at hsync
        obtain h | ⟨n, message', h, hn, -⟩ := hsync
        · cases h
        · cases h
          exact hn

/-- A frame without a message. -/
theorem stays_in_sync_empty_message : StaysInSync [4, 0, 0xFE, 0xCA] :=
  (stays_in_sync_iff [4, 0, 0xFE, 0xCA] (by decide)).2 (by decide)

/-- The length 0 asks for 2^64 - 4 bytes. The length 3 asks for `std::dynamic_extent`: the callback
gets the rest of the buffer, and the next frame is looked for in the last byte of the header. -/
theorem short_lengths_out_of_sync :
    ¬ StaysInSync [0, 0, 0xFE, 0xCA] ∧ ¬ StaysInSync [3, 0, 0xFE, 0xCA, 7] := by
  have hzero : parseHelper [0, 0, 0xFE, 0xCA] = .error .subspanOutOfRange := by decide
  have hthree : parseHelper [3, 0, 0xFE, 0xCA, 7] = .ok (3, some [7]) := by decide
  constructor
  · rintro (h | ⟨n, message, h, -⟩)
    · rw [hzero] at h
      cases h
    · rw [hzero] at h
      cases h
  · rintro (h | ⟨n, message, h, hn, -⟩)
    · rw [hthree] at h
      cases h
    · rw [hthree] at h
      cases h
      exact absurd hn (by decide)

end RoqCme.Ilink
