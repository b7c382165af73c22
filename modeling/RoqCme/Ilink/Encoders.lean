import RoqCme.Lib.Flyweight
import RoqCme.Ilink.Messages
import RoqCme.Ilink.Parser

/-! The encoders of messages with repeating groups (`protocol/ilink`). The classes generated from
the schema are a parameter; the length of a message is computed apart from writing it. -/
namespace RoqCme.Ilink
open RoqCme.Lib

namespace QuoteCancel

structure QuoteEntry where
  securityGroup : String
  securityId : Int
  deriving DecidableEq, Repr

structure QuoteSet where
  bidSize : Nat
  offerSize : Nat
  quoteSetId : Nat
  deriving DecidableEq, Repr

end QuoteCancel

structure QuoteCancel where
  partyDetailsListReqId : Nat
  sendingTimeEpoch : Nat
  seqNum : Nat
  senderId : String
  location : String
  quoteId : Nat
  quoteCancelType : Nat
  liquidityFlag : Bool
  origOrderUser : String
  quoteEntryOpen : Bool
  noQuoteEntries : List QuoteCancel.QuoteEntry
  noQuoteSets : List QuoteCancel.QuoteSet
  deriving DecidableEq, Repr

structure PartyDetails where
  partyDetailId : String
  partyDetailRole : Nat
  deriving DecidableEq, Repr

/-- A request with all of its fields, as the encoder gets it. -/
structure PartyDetailsDefinition where
  partyDetailsListReqId : Nat
  sendingTimeEpoch : Nat
  listUpdateAction : Nat
  seqNum : Nat
  memo : String
  avgPxGroupId : String
  selfMatchPreventionId : Nat
  cmtaGiveupCd : Nat
  custOrderCapacity : Nat
  clearingAccountType : Nat
  selfMatchPreventionInstruction : Nat
  avgPxIndicator : Nat
  clearingTradePriceType : Nat
  custOrderHandlingInst : Nat
  executor : Nat
  idmShortCode : Nat
  noPartyDetails : List PartyDetails
  deriving DecidableEq, Repr

/-- The generated classes: for each message its root block and its groups, in order. -/
structure Schema where
  headerLength : Nat
  massQuote517 : Root headerLength MassQuote
  noQuoteEntries517 : RepeatingGroup QuoteEntry
  quoteCancel528 : Root headerLength QuoteCancel
  noQuoteEntries528 : RepeatingGroup QuoteCancel.QuoteEntry
  noQuoteSets528 : RepeatingGroup QuoteCancel.QuoteSet
  partyDetailsDefinitionRequest518 : Root headerLength PartyDetailsDefinition
  noPartyDetails518 : RepeatingGroup PartyDetails
  noTrdRegPublications518 : RepeatingGroup Unit

/-- What an encoder leaves behind: the buffer and the length of the span that it returns. -/
structure Encoded where
  flyweight : BufferWriter
  length : Nat

/-- The span as `send` gets it. -/
def Encoded.span (r : Encoded) : List UInt8 := r.flyweight.buffer.take r.length

/-- `MassQuote::encode` -/
def MassQuote.encodeTo (S : Schema) (value : MassQuote) (buffer : List UInt8) : Option Encoded :=
  (S.massQuote517.wrap value buffer).bind fun w =>
    (S.noQuoteEntries517.write value.noQuoteEntries w).map fun w =>
      { flyweight := w
        length := S.headerLength + computeLength S.massQuote517.blockLength
          [S.noQuoteEntries517.size] [value.noQuoteEntries.length] }

/-- `QuoteCancel::encode`: each group has a call of `computeLength` of its own. -/
def QuoteCancel.encodeTo (S : Schema) (value : QuoteCancel) (buffer : List UInt8) :
    Option Encoded :=
  let groups := [S.noQuoteEntries528.size, S.noQuoteSets528.size]
  (S.quoteCancel528.wrap value buffer).bind fun w =>
    (S.noQuoteEntries528.write value.noQuoteEntries w).bind fun w =>
      (S.noQuoteSets528.write value.noQuoteSets w).map fun w =>
        { flyweight := w
          length := S.headerLength +
            computeLength S.quoteCancel528.blockLength groups [value.noQuoteEntries.length] +
            computeLength S.quoteCancel528.blockLength groups [value.noQuoteSets.length] }

/-- `PartyDetailsDefinitionRequest::encode` -/
def PartyDetailsDefinition.encodeTo (S : Schema) (value : PartyDetailsDefinition)
    (buffer : List UInt8) : Option Encoded :=
  (S.partyDetailsDefinitionRequest518.wrap value buffer).bind fun w =>
    (S.noPartyDetails518.write value.noPartyDetails w).bind fun w =>
      (S.noTrdRegPublications518.write [] w).map fun w =>
        { flyweight := w
          length := S.headerLength +
            computeLength S.partyDetailsDefinitionRequest518.blockLength
              [S.noPartyDetails518.size, S.noTrdRegPublications518.size]
              [value.noPartyDetails.length, 0] }

inductive GroupMessage where
  | massQuote (value : MassQuote)
  | quoteCancel (value : QuoteCancel)
  | partyDetailsDefinitionRequest (value : PartyDetailsDefinition)
  deriving DecidableEq, Repr

namespace GroupMessage

def encodeTo (S : Schema) : GroupMessage → List UInt8 → Option Encoded
  | massQuote value => value.encodeTo S
  | quoteCancel value => value.encodeTo S
  | partyDetailsDefinitionRequest value => value.encodeTo S

/-- The header, the root block, and all headers and entries of the groups. -/
def size (S : Schema) : GroupMessage → Nat
  | massQuote value => S.headerLength + S.massQuote517.blockLength +
      S.noQuoteEntries517.size.length value.noQuoteEntries.length
  | quoteCancel value => S.headerLength + S.quoteCancel528.blockLength +
      S.noQuoteEntries528.size.length value.noQuoteEntries.length +
      S.noQuoteSets528.size.length value.noQuoteSets.length
  | partyDetailsDefinitionRequest value =>
      S.headerLength + S.partyDetailsDefinitionRequest518.blockLength +
      S.noPartyDetails518.size.length value.noPartyDetails.length +
      S.noTrdRegPublications518.size.length 0

/-- Everything that was written is in the span, nothing else is, and the SOFH in front of it says
so. -/
def Covered (S : Schema) (m : GroupMessage) (r : Encoded) : Prop :=
  r.length = m.size S ∧ r.length = r.flyweight.position ∧
    sofh r.span = toLittleEndian 2 (r.flyweight.written.length + 4) ++ [0xFE, 0xCA] ++
      r.flyweight.written

/-- The length of a cancellation counts the root block and the headers of the groups twice, and
the sets with the size of the entries. -/
def LengthCounts (S : Schema) : GroupMessage → Prop
  | massQuote _ => True
  | quoteCancel value =>
      S.quoteCancel528.blockLength + S.noQuoteEntries528.size.headerLength +
        S.noQuoteSets528.size.headerLength +
        value.noQuoteSets.length * S.noQuoteEntries528.size.blockLength =
      value.noQuoteSets.length * S.noQuoteSets528.size.blockLength
  | partyDetailsDefinitionRequest _ => True

/-- What is written has the size of the message. -/
theorem encodeTo_position (S : Schema) (m : GroupMessage) {buffer : List UInt8} {r : Encoded}
    (h : m.encodeTo S buffer = some r) : r.flyweight.position = m.size S := by
  cases m with
  | massQuote value =>
    obtain ⟨w, hw, h⟩ := Option.bind_eq_some_iff.1 h
    obtain ⟨w1, h1, rfl⟩ := Option.map_eq_some_iff.1 h
    exact (RepeatingGroup.write_position _ _ h1).trans (by rw [Root.wrap_position _ _ hw]; rfl)
  | quoteCancel value =>
    obtain ⟨w, hw, h⟩ := Option.bind_eq_some_iff.1 h
    obtain ⟨w1, h1, h⟩ := Option.bind_eq_some_iff.1 h
    obtain ⟨w2, h2, rfl⟩ := Option.map_eq_some_iff.1 h
    refine (RepeatingGroup.write_position _ _ h2).trans ?_
    rw [RepeatingGroup.write_position _ _ h1, Root.wrap_position _ _ hw]
    rfl
  | partyDetailsDefinitionRequest value =>
    obtain ⟨w, hw, h⟩ := Option.bind_eq_some_iff.1 h
    obtain ⟨w1, h1, h⟩ := Option.bind_eq_some_iff.1 h
    obtain ⟨w2, h2, rfl⟩ := Option.map_eq_some_iff.1 h
    refine (RepeatingGroup.write_position _ _ h2).trans ?_
    rw [RepeatingGroup.write_position _ _ h1, Root.wrap_position _ _ hw]
    rfl

/-- The length that is returned, apart from what was written. -/
theorem encodeTo_length (S : Schema) (m : GroupMessage) {buffer : List UInt8} {r : Encoded}
    (h : m.encodeTo S buffer = some r) : r.length = m.size S ↔ m.LengthCounts S := by
  cases m with
  | massQuote value =>
    obtain ⟨w, hw, h⟩ := Option.bind_eq_some_iff.1 h
    obtain ⟨w1, h1, rfl⟩ := Option.map_eq_some_iff.1 h
    refine iff_of_true ?_ trivial
    simp only [size, computeLength, GroupSize.length]
    omega
  | quoteCancel value =>
    obtain ⟨w, hw, h⟩ := Option.bind_eq_some_iff.1 h
    obtain ⟨w1, h1, h⟩ := Option.bind_eq_some_iff.1 h
    obtain ⟨w2, h2, rfl⟩ := Option.map_eq_some_iff.1 h
    simp only [size, LengthCounts, computeLength, GroupSize.length]
    omega
  | partyDetailsDefinitionRequest value =>
    obtain ⟨w, hw, h⟩ := Option.bind_eq_some_iff.1 h
    obtain ⟨w1, h1, h⟩ := Option.bind_eq_some_iff.1 h
    obtain ⟨w2, h2, rfl⟩ := Option.map_eq_some_iff.1 h
    refine iff_of_true ?_ trivial
    simp only [size, computeLength, GroupSize.length]
    omega

end GroupMessage

/-- Whatever the schema, the buffer and the message: the span covers what was written, and the SOFH
says so, exactly if the message is no cancellation or its sets make up for what is counted twice. -/
theorem encoded_length_covers_iff (S : Schema) (m : GroupMessage) (buffer : List UInt8)
    (r : Encoded) (h : m.encodeTo S buffer = some r) : m.Covered S r ↔ m.LengthCounts S := by
  have hposition := m.encodeTo_position S h
  rw [← m.encodeTo_length S h]
  constructor
  · exact fun hcovered => hcovered.1
  · intro hlength
    have hspan : r.span = r.flyweight.written := by
      rw [Encoded.span, BufferWriter.written, hlength, hposition]
    exact ⟨hlength, hlength.trans hposition.symm, by rw [sofh, hspan]⟩

def text (n : Nat) (s : String) : List UInt8 :=
  ((s.toList.map fun c : Char => UInt8.ofNat c.toNat) ++ List.replicate n 0).take n

/-- Template 518 as the encoder and its test have it. Of 517 and 528 only sizes are given. -/
def Schema.sample : Schema where
  headerLength := 8
  massQuote517 := .sized 8 [0x61, 0, 0x05, 0x02, 0x08, 0, 0x08, 0] 97 fun _ => []
  noQuoteEntries517 := .sized 42 254 fun _ => []
  quoteCancel528 := .sized 8 [0x49, 0, 0x10, 0x02, 0x08, 0, 0x08, 0] 73 fun _ => []
  noQuoteEntries528 := .sized 10 254 fun item =>
    text 6 item.securityGroup ++ toLittleEndian 4 item.securityId.toNat
  noQuoteSets528 := .sized 10 254 fun item =>
    toLittleEndian 4 item.bidSize ++ toLittleEndian 4 item.offerSize ++
      toLittleEndian 2 item.quoteSetId
  partyDetailsDefinitionRequest518 :=
    .sized 8 [0x93, 0, 0x06, 0x02, 0x08, 0, 0x08, 0] 147 fun value =>
      toLittleEndian 8 value.partyDetailsListReqId ++ toLittleEndian 8 value.sendingTimeEpoch ++
      toLittleEndian 1 value.listUpdateAction ++ toLittleEndian 4 value.seqNum ++
      text 75 value.memo ++ text 20 value.avgPxGroupId ++
      toLittleEndian 8 (if value.selfMatchPreventionId = 0 then 2 ^ 64 - 1
        else value.selfMatchPreventionId) ++
      toLittleEndian 1 value.cmtaGiveupCd ++ toLittleEndian 1 value.custOrderCapacity ++
      toLittleEndian 1 value.clearingAccountType ++
      toLittleEndian 1 value.selfMatchPreventionInstruction ++
      toLittleEndian 1 value.avgPxIndicator ++ toLittleEndian 1 value.clearingTradePriceType ++
      toLittleEndian 1 value.custOrderHandlingInst ++ toLittleEndian 8 value.executor ++
      toLittleEndian 8 value.idmShortCode
  noPartyDetails518 := .sized 22 254 fun item =>
    text 20 item.partyDetailId ++ toLittleEndian 2 item.partyDetailRole
  noTrdRegPublications518 := .sized 2 254 fun _ => []

/-- The message of the test. -/
def PartyDetailsDefinition.sample : PartyDetailsDefinition where
  partyDetailsListReqId := 0
  sendingTimeEpoch := 123000000000
  listUpdateAction := 0x41
  seqNum := 1
  memo := ""
  avgPxGroupId := ""
  selfMatchPreventionId := 0
  cmtaGiveupCd := 0x47
  custOrderCapacity := 1
  clearingAccountType := 1
  selfMatchPreventionInstruction := 0x4e
  avgPxIndicator := 0
  clearingTradePriceType := 0
  custOrderHandlingInst := 0x48
  executor := 0
  idmShortCode := 0
  noPartyDetails := [⟨"ROQ", 1⟩]

/-- 183 bytes: the header, 147 for the root block, 3 + 22 for the parties and 3 for the rest. -/
theorem encoded_length_covers_party_details :
    ∃ r, (GroupMessage.partyDetailsDefinitionRequest .sample).encodeTo .sample
        (List.replicate 256 0xAA) = some r ∧ r.length = 183 ∧
      (GroupMessage.partyDetailsDefinitionRequest .sample).Covered .sample r := by
  have hsome : ((GroupMessage.partyDetailsDefinitionRequest .sample).encodeTo .sample
      (List.replicate 256 0xAA)).isSome = true := by decide +kernel
  obtain ⟨r, hr⟩ := Option.isSome_iff_exists.1 hsome
  have hcovered := (encoded_length_covers_iff _ _ _ r hr).2 trivial
  refine ⟨r, hr, ?_, hcovered⟩
  rw [hcovered.1]
  decide

/-- A cancellation of one quote and no set: 97 bytes are written, and 79 stale ones are sent with
them. -/
theorem quote_cancel_length_too_large :
    let m := GroupMessage.quoteCancel
      { partyDetailsListReqId := 1, sendingTimeEpoch := 0, seqNum := 1, senderId := "ROQ"
        location := "UK", quoteId := 1, quoteCancelType := 1, liquidityFlag := false
        origOrderUser := "ROQ", quoteEntryOpen := false, noQuoteEntries := [⟨"ES", 7⟩]
        noQuoteSets := [] }
    ∃ r, m.encodeTo .sample (List.replicate 256 0xAA) = some r ∧ m.size .sample = 97 ∧
      r.flyweight.position = 97 ∧ r.length = 176 ∧ r.span.drop 97 = List.replicate 79 0xAA ∧
      ¬ m.Covered .sample r := by
  intro m
  have hsize : m.size .sample = 97 := by decide
  have hencoded : (m.encodeTo .sample (List.replicate 256 0xAA)).map
      (fun r => (r.flyweight.position, r.length, r.span.drop 97)) =
        some (97, 176, List.replicate 79 0xAA) := by
    decide +kernel
  obtain ⟨r, hr, hvalues⟩ := Option.map_eq_some_iff.1 hencoded
  simp only [Prod.mk.injEq] at hvalues
  obtain ⟨hposition, hlength, hstale⟩ := hvalues
  refine ⟨r, hr, hsize, hposition, hlength, hstale, ?_⟩
  intro h
  rw [h.1, hsize] at hlength
  exact absurd hlength (by decide)

end RoqCme.Ilink
