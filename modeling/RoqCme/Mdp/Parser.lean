import RoqCme.Mdp.Frame
import RoqCme.Lib.Command

/-! The packets of all market-data feeds (`protocol/mdp/parser`): the frame, and then messages, each
with a size and the header of the generated codec. The codec itself is not part of the sources; a
handler gets the bytes from which it makes a message. -/
namespace RoqCme.Mdp
open RoqCme.Lib
variable {σ ε : Type*}

/-- What a generated message is constructed from. -/
structure Flyweight where
  templateId : UInt16
  blockLength : UInt16
  version : UInt16
  body : List UInt8
  deriving DecidableEq, Repr

inductive TemplateKind where
  | supported | ignored | unknown
  deriving DecidableEq, Repr

/-- The templates with a handler, in the order of the source. -/
def supportedTemplates : List UInt16 :=
  [12, 4, 30, 54, 55, 56, 57, 58, 63, 52, 69, 46, 64, 53, 47, 48, 65, 49, 51, 67, 37, 66, 50, 39]

/-- Logout, top orders, workup, the two snapshots over TCP and collateral: silently dropped. -/
def ignoredTemplates : List UInt16 := [16, 59, 60, 61, 62, 68]

def templateKind (templateId : UInt16) : TemplateKind :=
  if templateId ∈ supportedTemplates then .supported
  else if templateId ∈ ignoredTemplates then .ignored
  else .unknown

/-- The operators of `Parser::Handler`. The second one constructs the message first, and either may
throw. -/
structure Handler (σ ε : Type*) where
  frame : Frame → Command σ ε
  message : Frame → Flyweight → Command σ ε

/-- The call for a message: the ignored templates have none. -/
def Handler.call (H : Handler σ ε) (frame : Frame) (value : Flyweight) : Command σ ε :=
  match templateKind value.templateId with
  | .supported => H.message frame value
  | .ignored | .unknown => .skip

/-- How `Parser::dispatch` ends: with its result, with one of the exceptions, or at a `subspan` that
has no defined outcome. -/
inductive Ending (ε : Type*) where
  | returned (result : Bool)
  | bufferTooSmall (size : Nat)
  | headerTooShort (size : Nat)
  | thrown (e : ε)
  | undefined
  | outOfFuel
  deriving DecidableEq, Repr

/-- A `subspan` of so many available bytes. Without a count it takes the rest. -/
structure Access where
  available : Nat
  offset : Nat
  count : Nat := 0
  deriving DecidableEq, Repr

def Access.InBounds (a : Access) : Prop := a.offset + a.count ≤ a.available

instance (a : Access) : Decidable a.InBounds := inferInstanceAs (Decidable (_ ≤ _))

structure Parsed (σ ε : Type*) where
  state : σ
  ending : Ending ε
  accesses : List Access := []
  deriving DecidableEq, Repr

/-- `std::dynamic_extent` -/
def dynamicExtent : Nat := 2 ^ 64 - 1

/-- `std::span::subspan` with a count, without assertions. -/
def subspan (bytes : List UInt8) (offset count : Nat) : Option (List UInt8) :=
  if bytes.length < offset then none
  else if count = dynamicExtent then some (bytes.drop offset)
  else if offset + count ≤ bytes.length then some ((bytes.drop offset).take count)
  else none

def sizeLength : Nat := 2

/-- `MessageHeader::encodedLength` -/
def headerLength : Nat := 8

/-- The length of the body, in the unsigned arithmetic of the source. -/
def bodyLength (size : Nat) : Nat := (size + 2 ^ 64 - (sizeLength + headerLength)) % 2 ^ 64

def uint16At (bytes : List UInt8) (offset : Nat) : UInt16 :=
  UInt16.ofNat (ofLittleEndian ((bytes.drop offset).take 2))

/-- What the header of the codec says about a body. -/
def flyweightAt (header body : List UInt8) : Flyweight :=
  { templateId := uint16At header 2, blockLength := uint16At header 0
    version := uint16At header 6, body := body }

/-- How one round of the loop over the messages ends. -/
inductive Round (σ ε : Type*) where
  | ended (p : Parsed σ ε)
  | next (message : List UInt8) (s : σ) (accesses : List Access)

namespace Parser

/-- One round, from the size of a message to the `subspan` behind it. -/
def round (H : Handler σ ε) (frame : Frame) (message : List UInt8) (s : σ) : Round σ ε :=
  if message.length < sizeLength then
    .ended { state := s, ending := .bufferTooSmall message.length }
  else
    let length := bodyLength (uint16At message 0).toNat
    let header := message.drop sizeLength
    if header.length < headerLength then
      .ended
        { state := s, ending := .headerTooShort header.length
          accesses := [⟨message.length, sizeLength, 0⟩] }
    else
      let rest := header.drop headerLength
      let accesses : List Access :=
        [⟨message.length, sizeLength, 0⟩, ⟨header.length, headerLength, 0⟩,
          ⟨rest.length, 0, length⟩]
      match subspan rest 0 length with
      | none => .ended { state := s, ending := .undefined, accesses := accesses }
      | some body =>
        let value := flyweightAt header body
        if templateKind value.templateId = .unknown then
          .ended { state := s, ending := .returned false, accesses := accesses }
        else
          let called := H.call frame value s
          let accesses' := accesses ++ [⟨rest.length, length, 0⟩]
          match called.2 with
          | some e => .ended { state := called.1, ending := .thrown e, accesses := accesses }
          | none =>
            if rest.length < length then
              .ended { state := called.1, ending := .undefined, accesses := accesses' }
            else .next (rest.drop length) called.1 accesses'

/-- The loop over the messages of a packet. -/
def loop (H : Handler σ ε) (frame : Frame) : Nat → List UInt8 → σ → Parsed σ ε
  | 0, _, s => { state := s, ending := .outOfFuel }
  | fuel + 1, message, s =>
    if message = [] then { state := s, ending := .returned true }
    else
      match round H frame message s with
      | .ended p => p
      | .next message s accesses =>
        let r := loop H frame fuel message s
        { r with accesses := accesses ++ r.accesses }

/-- `Parser::dispatch` -/
def dispatch (H : Handler σ ε) (buffer : List UInt8) (s : σ) : Parsed σ ε :=
  match Frame.parse buffer with
  | none => { state := s, ending := .returned false }
  | some frame =>
    match (H.frame frame s).2 with
    | some e => { state := (H.frame frame s).1, ending := .thrown e }
    | none =>
      let r := loop H frame buffer.length (buffer.drop Frame.size) (H.frame frame s).1
      { r with accesses := ⟨buffer.length, Frame.size, 0⟩ :: r.accesses }

end Parser

/-- A message as the exchange sends it. -/
structure SbeMessage where
  schemaId : UInt16
  value : Flyweight
  fits : value.body.length + (sizeLength + headerLength) < 2 ^ 16

def SbeMessage.size (m : SbeMessage) : Nat := m.value.body.length + (sizeLength + headerLength)

def SbeMessage.kind (m : SbeMessage) : TemplateKind := templateKind m.value.templateId

def SbeMessage.header (m : SbeMessage) : List UInt8 :=
  toLittleEndian 2 m.value.blockLength.toNat ++ toLittleEndian 2 m.value.templateId.toNat ++
    toLittleEndian 2 m.schemaId.toNat ++ toLittleEndian 2 m.value.version.toNat

def SbeMessage.encode (m : SbeMessage) : List UInt8 :=
  toLittleEndian 2 m.size ++ (m.header ++ m.value.body)

/-- A packet as the exchange sends it. -/
def encodePacket (sequenceNumber : UInt32) (sendingTime : UInt64) (messages : List SbeMessage) :
    List UInt8 :=
  toLittleEndian 4 sequenceNumber.toNat ++ toLittleEndian 8 sendingTime.toNat ++
    messages.flatMap SbeMessage.encode

theorem uint16At_append {before rest : List UInt8} {offset n : Nat} (h : before.length = offset)
    (hn : n < 2 ^ 16) :
    uint16At (before ++ (toLittleEndian 2 n ++ rest)) offset = UInt16.ofNat n := by
  have hpow : (256 : Nat) ^ 2 = 2 ^ 16 := by decide
  rw [uint16At, List.drop_left' h, List.take_left' (toLittleEndian_length 2 n),
    ofLittleEndian_toLittleEndian, hpow, Nat.mod_eq_of_lt hn]

theorem bodyLength_of_le {size : Nat} (h : sizeLength + headerLength ≤ size) (h' : size < 2 ^ 16) :
    bodyLength size = size - (sizeLength + headerLength) := by
  simp only [bodyLength, sizeLength, headerLength] at h ⊢
  omega

theorem subspan_zero {bytes : List UInt8} {count : Nat} (h : count ≤ bytes.length)
    (hne : count ≠ dynamicExtent) : subspan bytes 0 count = some (bytes.take count) := by
  rw [subspan, if_neg (Nat.not_lt_zero _), if_neg hne, if_pos (by omega), List.drop_zero]

namespace SbeMessage
variable (m : SbeMessage)

theorem header_length : m.header.length = headerLength := by
  simp only [header, List.length_append, toLittleEndian_length]
  rfl

theorem encode_length : m.encode.length = m.size := by
  simp only [encode, size, List.length_append, toLittleEndian_length, header_length, sizeLength]
  omega

theorem size_field (tail : List UInt8) : (uint16At (m.encode ++ tail) 0).toNat = m.size := by
  have hfits : m.size < 2 ^ 16 := m.fits
  have hsplit : m.encode ++ tail =
      [] ++ (toLittleEndian 2 m.size ++ (m.header ++ m.value.body ++ tail)) := by
    simp only [encode, List.append_assoc, List.nil_append]
  rw [hsplit, uint16At_append List.length_nil hfits, UInt16.toNat_ofNat', Nat.mod_eq_of_lt hfits]

theorem drop_size (tail : List UInt8) :
    (m.encode ++ tail).drop sizeLength = m.header ++ (m.value.body ++ tail) := by
  have hsplit : m.encode ++ tail =
      toLittleEndian 2 m.size ++ (m.header ++ (m.value.body ++ tail)) := by
    simp only [encode, List.append_assoc]
  rw [hsplit]
  exact List.drop_left' (toLittleEndian_length 2 m.size)

theorem header_fields (rest : List UInt8) :
    uint16At (m.header ++ rest) 0 = m.value.blockLength ∧
      uint16At (m.header ++ rest) 2 = m.value.templateId ∧
      uint16At (m.header ++ rest) 6 = m.value.version := by
  have hread : ∀ (before after : List UInt8) (v : UInt16) (offset : Nat),
      m.header ++ rest = before ++ (toLittleEndian 2 v.toNat ++ after) → before.length = offset →
        uint16At (m.header ++ rest) offset = v := by
    intro before after v offset hsplit hlength
    rw [hsplit, uint16At_append hlength v.toNat_lt, UInt16.ofNat_toNat]
  let b := toLittleEndian 2 m.value.blockLength.toNat
  let t := toLittleEndian 2 m.value.templateId.toNat
  let s := toLittleEndian 2 m.schemaId.toNat
  let v := toLittleEndian 2 m.value.version.toNat
  have hheader : m.header ++ rest = b ++ (t ++ (s ++ (v ++ rest))) := by
    simp only [header, List.append_assoc, b, t, s, v]
  refine ⟨hread [] (t ++ (s ++ (v ++ rest))) _ 0 hheader rfl,
    hread b (s ++ (v ++ rest)) _ 2 hheader (toLittleEndian_length 2 _),
    hread (b ++ (t ++ s)) rest _ 6 ?_ ?_⟩
  · simp only [hheader, List.append_assoc, v]
  · simp only [List.length_append, b, t, s, toLittleEndian_length]

theorem flyweightAt_header (rest : List UInt8) :
    flyweightAt (m.header ++ rest) m.value.body = m.value := by
  obtain ⟨hblock, htemplate, hversion⟩ := m.header_fields rest
  rw [flyweightAt, hblock, htemplate, hversion]

end SbeMessage

/-- The size of a message with its two headers, as the bytes say. -/
def sizeAt (message : List UInt8) : Nat := (uint16At message 0).toNat

/-- The bytes begin with a message that is there in full. -/
def WellSized (message : List UInt8) : Prop :=
  sizeLength + headerLength ≤ sizeAt message ∧ sizeAt message ≤ message.length

instance (message : List UInt8) : Decidable (WellSized message) :=
  inferInstanceAs (Decidable (_ ∧ _))

/-- The message at the front. -/
def valueAt (message : List UInt8) : Flyweight :=
  flyweightAt (message.drop sizeLength)
    (((message.drop sizeLength).drop headerLength).take (sizeAt message - (sizeLength + headerLength)))

/-- What a round takes before it knows the template. -/
def headAccesses (message : List UInt8) : List Access :=
  [⟨message.length, sizeLength, 0⟩, ⟨(message.drop sizeLength).length, headerLength, 0⟩,
    ⟨((message.drop sizeLength).drop headerLength).length, 0, bodyLength (sizeAt message)⟩]

theorem sizeAt_lt (message : List UInt8) : sizeAt message < 2 ^ 16 := UInt16.toNat_lt _

namespace Parser
variable (H : Handler σ ε) (frame : Frame)

/-- A round on a message that is there in full. -/
theorem round_of_wellSized {message : List UInt8} (h : WellSized message) (s : σ) :
    round H frame message s =
      if templateKind (valueAt message).templateId = .unknown then
        .ended ⟨s, .returned false, headAccesses message⟩
      else
        match (H.call frame (valueAt message) s).2 with
        | some e => .ended ⟨(H.call frame (valueAt message) s).1, .thrown e, headAccesses message⟩
        | none => .next (message.drop (sizeAt message)) (H.call frame (valueAt message) s).1
            (headAccesses message ++
              [⟨((message.drop sizeLength).drop headerLength).length,
                bodyLength (sizeAt message), 0⟩]) := by
  obtain ⟨hten, hle⟩ := h
  have hlt := sizeAt_lt message
  have hbody : bodyLength (sizeAt message) = sizeAt message - (sizeLength + headerLength) :=
    bodyLength_of_le hten hlt
  have hlen : ((message.drop sizeLength).drop headerLength).length =
      message.length - (sizeLength + headerLength) := by
    rw [List.length_drop, List.length_drop, Nat.sub_sub]
  have hspan : subspan ((message.drop sizeLength).drop headerLength) 0
      (bodyLength (sizeAt message)) = some (((message.drop sizeLength).drop headerLength).take
        (sizeAt message - (sizeLength + headerLength))) := by
    rw [← hbody]
    apply subspan_zero
    · rw [hbody, hlen]
      exact Nat.sub_le_sub_right hle _
    · rw [hbody, dynamicExtent]
      omega
  have hrest : ((message.drop sizeLength).drop headerLength).drop (bodyLength (sizeAt message)) =
      message.drop (sizeAt message) := by
    rw [List.drop_drop, List.drop_drop, hbody, ← Nat.add_assoc, Nat.add_sub_cancel' hten]
  have htwo : ¬ message.length < sizeLength := by
    simp only [sizeLength, headerLength] at hten ⊢
    omega
  have height : ¬ (message.drop sizeLength).length < headerLength := by
    rw [List.length_drop]
    simp only [sizeLength, headerLength] at hten ⊢
    omega
  have hfull : ¬ ((message.drop sizeLength).drop headerLength).length <
      bodyLength (sizeAt message) := by
    rw [hbody, hlen, Nat.not_lt]
    exact Nat.sub_le_sub_right hle _
  unfold round
  rw [if_neg htwo]
  have hsize : (uint16At message 0).toNat = sizeAt message := rfl
  simp only [if_neg height, hsize, hspan, if_neg hfull, hrest]
  rfl

theorem ne_nil_of_wellSized {message : List UInt8} (h : WellSized message) : message ≠ [] := by
  rintro rfl
  have hlength := Nat.le_trans h.1 h.2
  simp [sizeLength, headerLength] at hlength

section WellSized
variable {H frame} {message : List UInt8} {s : σ} (h : WellSized message) (fuel : Nat)
include h

theorem loop_unknown (hkind : templateKind (valueAt message).templateId = .unknown) :
    loop H frame (fuel + 1) message s = ⟨s, .returned false, headAccesses message⟩ := by
  rw [loop, if_neg (ne_nil_of_wellSized h), round_of_wellSized H frame h, if_pos hkind]

theorem loop_thrown {e : ε} (hkind : templateKind (valueAt message).templateId ≠ .unknown)
    (he : (H.call frame (valueAt message) s).2 = some e) :
    loop H frame (fuel + 1) message s =
      ⟨(H.call frame (valueAt message) s).1, .thrown e, headAccesses message⟩ := by
  rw [loop, if_neg (ne_nil_of_wellSized h), round_of_wellSized H frame h, if_neg hkind, he]

theorem loop_next (hkind : templateKind (valueAt message).templateId ≠ .unknown)
    (hnone : (H.call frame (valueAt message) s).2 = none) :
    loop H frame (fuel + 1) message s =
      let r := loop H frame fuel (message.drop (sizeAt message))
        (H.call frame (valueAt message) s).1
      { r with
        accesses := headAccesses message ++
          [⟨((message.drop sizeLength).drop headerLength).length,
            bodyLength (sizeAt message), 0⟩] ++ r.accesses } := by
  rw [loop, if_neg (ne_nil_of_wellSized h), round_of_wellSized H frame h, if_neg hkind, hnone]

end WellSized
end Parser

namespace SbeMessage
variable (m : SbeMessage) (tail : List UInt8)

theorem sizeAt_encode : sizeAt (m.encode ++ tail) = m.size := m.size_field tail

theorem wellSized_encode : WellSized (m.encode ++ tail) := by
  rw [WellSized, sizeAt_encode, List.length_append, encode_length]
  exact ⟨Nat.le_add_left _ _, Nat.le_add_right _ _⟩

theorem valueAt_encode : valueAt (m.encode ++ tail) = m.value := by
  have hsize : m.size - (sizeLength + headerLength) = m.value.body.length :=
    Nat.add_sub_cancel _ _
  have hrest : (m.header ++ (m.value.body ++ tail)).drop headerLength = m.value.body ++ tail :=
    List.drop_left' m.header_length
  rw [valueAt, sizeAt_encode, hsize, m.drop_size, hrest, List.take_left, m.flyweightAt_header]

theorem drop_encode : (m.encode ++ tail).drop (sizeAt (m.encode ++ tail)) = tail := by
  rw [sizeAt_encode]
  exact List.drop_left' m.encode_length

end SbeMessage

/-- The state and the ending, without the accesses. -/
def Parsed.outcome (p : Parsed σ ε) : σ × Ending ε := (p.state, p.ending)

/-- How the loop ends after these commands, if nothing is thrown. -/
def outcomeOf (r : σ × Option ε) (result : Bool) : σ × Ending ε :=
  match r.2 with
  | some e => (r.1, .thrown e)
  | none => (r.1, .returned result)

namespace Parser
variable (H : Handler σ ε) (frame : Frame)

/-- The messages before the first one with an unknown template. -/
def seen (messages : List SbeMessage) : List SbeMessage :=
  messages.takeWhile fun m => m.kind ≠ .unknown

/-- The loop over whole messages: the calls of those before the first unknown one. -/
theorem loop_messages (messages : List SbeMessage) (fuel : Nat) (s : σ)
    (hfuel : messages.length < fuel) :
    (loop H frame fuel (messages.flatMap SbeMessage.encode) s).outcome =
      outcomeOf (Command.all ((seen messages).map fun m => H.call frame m.value) s)
        (messages.all fun m => m.kind ≠ .unknown) := by
  induction messages generalizing fuel s with
  | nil =>
    cases fuel with
    | zero => cases hfuel
    | succ fuel => rfl
  | cons m messages ih =>
    cases fuel with
    | zero => cases hfuel
    | succ fuel =>
      rw [List.flatMap_cons]
      let tail := messages.flatMap SbeMessage.encode
      have hsized := m.wellSized_encode tail
      have hvalue : valueAt (m.encode ++ tail) = m.value := m.valueAt_encode tail
      by_cases hkind : m.kind = .unknown
      · have hunknown : templateKind (valueAt (m.encode ++ tail)).templateId = .unknown := by
          rw [hvalue]
          exact hkind
        rw [loop_unknown hsized fuel hunknown]
        simp [seen, hkind, Command.all, Command.skip, outcomeOf, Parsed.outcome]
      · have hknown : templateKind (valueAt (m.encode ++ tail)).templateId ≠ .unknown := by
          rw [hvalue]
          exact hkind
        have hseen : seen (m :: messages) = m :: seen messages := by simp [seen, hkind]
        rw [hseen, List.map_cons, Command.all]
        cases hend : (H.call frame m.value s).2 with
        | some e =>
          rw [← hvalue] at hend ⊢
          rw [loop_thrown hsized fuel hknown hend, Command.andThen_of_some hend, outcomeOf, hend]
          rfl
        | none =>
          rw [← hvalue] at hend ⊢
          rw [loop_next hsized fuel hknown hend, Command.andThen_of_none hend]
          have hrest := ih fuel (H.call frame (valueAt (m.encode ++ tail)) s).1
            (Nat.lt_of_succ_lt_succ hfuel)
          have hdrop : (m.encode ++ tail).drop (sizeAt (m.encode ++ tail)) = tail :=
            m.drop_encode tail
          have hall : ((m :: messages).all fun m => m.kind ≠ .unknown) =
              messages.all fun m => m.kind ≠ .unknown := by
            simp [hkind]
          simp only [hdrop, hall]
          exact hrest

/-- Only the supported templates lead to calls. -/
theorem all_call (messages : List SbeMessage) :
    Command.all (messages.map fun m => H.call frame m.value) =
      Command.all ((messages.filter fun m => m.kind = .supported).map fun m =>
        H.message frame m.value) := by
  induction messages with
  | nil => rfl
  | cons m messages ih =>
    rw [List.map_cons, Command.all, ih]
    by_cases hkind : m.kind = .supported
    · have hcall : H.call frame m.value = H.message frame m.value := by
        have htemplate : templateKind m.value.templateId = .supported := hkind
        rw [Handler.call, htemplate]
      rw [List.filter_cons_of_pos (by simpa using hkind), List.map_cons, Command.all, hcall]
    · have hcall : H.call frame m.value = .skip := by
        have htemplate : templateKind m.value.templateId ≠ .supported := hkind
        rw [Handler.call]
        split
        · next he => exact absurd he htemplate
        · rfl
        · rfl
      rw [List.filter_cons_of_neg (by simpa using hkind), hcall, Command.skip_andThen]

theorem frame_parse_packet (sequenceNumber : UInt32) (sendingTime : UInt64)
    (messages : List SbeMessage) :
    Frame.parse (encodePacket sequenceNumber sendingTime messages) =
        some ⟨sequenceNumber.toNat, sendingTime.toNat⟩ ∧
      (encodePacket sequenceNumber sendingTime messages).drop Frame.size =
        messages.flatMap SbeMessage.encode := by
  let a := toLittleEndian 4 sequenceNumber.toNat
  let b := toLittleEndian 8 sendingTime.toNat
  let rest := messages.flatMap SbeMessage.encode
  have ha : a.length = 4 := toLittleEndian_length 4 _
  have hb : b.length = 8 := toLittleEndian_length 8 _
  have hpacket : encodePacket sequenceNumber sendingTime messages = a ++ (b ++ rest) :=
    List.append_assoc a b rest
  have hlong : ¬ (a ++ (b ++ rest)).length < Frame.size := by
    rw [List.length_append, List.length_append, ha, hb, Frame.size]
    omega
  have hnumber : ofLittleEndian a = sequenceNumber.toNat := by
    rw [ofLittleEndian_toLittleEndian]
    exact Nat.mod_eq_of_lt sequenceNumber.toNat_lt
  have htime : ofLittleEndian b = sendingTime.toNat := by
    rw [ofLittleEndian_toLittleEndian]
    exact Nat.mod_eq_of_lt sendingTime.toNat_lt
  rw [hpacket]
  constructor
  · rw [Frame.parse, if_neg hlong, List.take_left' ha, List.drop_left' ha, List.take_left' hb,
      hnumber, htime]
  · rw [← List.append_assoc]
    refine List.drop_left' ?_
    rw [List.length_append, ha, hb]
    rfl

theorem length_lt_packet (sequenceNumber : UInt32) (sendingTime : UInt64)
    (messages : List SbeMessage) :
    messages.length < (encodePacket sequenceNumber sendingTime messages).length := by
  have hle : ∀ messages : List SbeMessage,
      messages.length ≤ (messages.flatMap SbeMessage.encode).length := by
    intro messages
    induction messages with
    | nil => exact le_rfl
    | cons m messages ih =>
      have hsize : 10 ≤ m.size := Nat.le_add_left _ _
      rw [List.flatMap_cons, List.length_append, m.encode_length, List.length_cons]
      omega
  have hmessages := hle messages
  rw [encodePacket, List.length_append, List.length_append, toLittleEndian_length,
    toLittleEndian_length]
  omega

theorem dispatch_packet (sequenceNumber : UInt32) (sendingTime : UInt64)
    (messages : List SbeMessage) (s : σ) :
    let frame : Frame := ⟨sequenceNumber.toNat, sendingTime.toNat⟩
    (dispatch H (encodePacket sequenceNumber sendingTime messages) s).outcome =
      outcomeOf
        ((H.frame frame).andThen
          (Command.all ((seen messages).map fun m => H.call frame m.value)) s)
        (messages.all fun m => m.kind ≠ .unknown) := by
  intro frame
  obtain ⟨hframe, hrest⟩ := frame_parse_packet sequenceNumber sendingTime messages
  cases hend : (H.frame frame s).2 with
  | some e =>
    rw [Command.andThen_of_some hend, outcomeOf, hend]
    simp only [dispatch, hframe]
    rw [hend]
    rfl
  | none =>
    have hloop := loop_messages H frame messages _ (H.frame frame s).1
      (length_lt_packet sequenceNumber sendingTime messages)
    rw [Command.andThen_of_none hend, ← hloop, ← hrest]
    simp only [dispatch, hframe]
    rw [hend]
    rfl

/-- A packet of whole messages is parsed exactly: the frame, and then the supported messages before
the first unknown one, each with its own body. Unless a handler throws, the result says whether all
templates were known. -/
theorem packet_parsed_exactly (H : Handler σ ε) (sequenceNumber : UInt32) (sendingTime : UInt64)
    (messages : List SbeMessage) (s : σ) :
    let frame : Frame := ⟨sequenceNumber.toNat, sendingTime.toNat⟩
    let called := (messages.takeWhile fun m => m.kind ≠ .unknown).filter fun m =>
      m.kind = .supported
    (dispatch H (encodePacket sequenceNumber sendingTime messages) s).outcome =
      outcomeOf
        (Command.all (H.frame frame :: called.map fun m => H.message frame m.value) s)
        (messages.all fun m => m.kind ≠ .unknown) := by
  intro frame called
  have hcalls : Command.all (called.map fun m => H.message frame m.value) =
      Command.all ((seen messages).map fun m => H.call frame m.value) :=
    (all_call H frame (seen messages)).symm
  rw [Command.all, hcalls]
  exact dispatch_packet H sequenceNumber sendingTime messages s

end Parser
end RoqCme.Mdp
