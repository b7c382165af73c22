import RoqCme.Ilink.ConfigReader
import RoqCme.Mdp.ChannelRecords
import RoqCme.Secdef.ConfigReader

/-! The two readers of the configuration together, on any stream of well-nested elements. -/
namespace RoqCme.Gateway.Configuration
open RoqCme.Lib.Xml RoqCme.Mdp.ConfigReader

/-- Neither reader sees how the text is cut, `host_ips` apart, and no text and no attribute of a
record gets into another one. -/
structure Independent (fromChars : FromChars) (fromChars' : Ilink.ConfigReader.FromChars)
    (f : List Event) : Prop where
  channels_resplit : ∀ g, Resplit f g →
    (dispatch fromChars g).calls.map (fun c => (c.1, c.2.withoutHostIps)) =
      (dispatch fromChars f).calls.map fun c => (c.1, c.2.withoutHostIps)
  segments_resplit : ∀ g, Resplit f g →
    (Ilink.ConfigReader.dispatch fromChars' g).calls =
      (Ilink.ConfigReader.dispatch fromChars' f).calls
  channels_apart : ChannelsApart fromChars f
  connections_apart : ConnectionsApart fromChars f
  segments_apart : Ilink.ConfigReader.SegmentsApart recordKinds fromChars' f

/-- Everything but the records of the channels is always kept apart. -/
theorem records_independent_iff (fromChars : FromChars)
    (fromChars' : Ilink.ConfigReader.FromChars) (f : List Event) (hf : Admissible recordKinds f) :
    Independent fromChars fromChars' f ↔ Undisturbed fromChars f := by
  constructor
  · exact fun h => (channelsApart_iff hf).1 h.channels_apart
  · intro h
    refine ⟨?_, ?_, (channelsApart_iff hf).2 h, connectionsApart hf.1, ?_⟩
    · exact fun g hg => congrArg State.calls (dispatch_resplit fromChars hg)
    · intro g hg
      rw [Ilink.ConfigReader.dispatch_resplit fromChars' hg]
    · exact Ilink.ConfigReader.segmentsApart (by decide) hf.1

/-- The conversion of plain decimal numbers. -/
def decimal (text : String) : Option UInt16 :=
  ((Secdef.digits text.toList).filter fun n => n < 2 ^ 16).map UInt16.ofNat

def decimal' (text : String) : Option UInt8 :=
  ((Secdef.digits text.toList).filter fun n => n < 2 ^ 8).map UInt8.ofNat

/-- A connection with its address. -/
def connection (id : String) : List Event :=
  [.startElement "connection" [("id", id)], .startElement "ip" [], .characterData "10.0.0.1",
    .endElement "ip", .endElement "connection"]

/-- A channel with a connection in it. -/
def regular : List Event :=
  [.startElement "configuration" [], .startElement "channel" [("id", "310"), ("label", "X")]] ++
    connection "c" ++ [.endElement "channel", .endElement "configuration"]

theorem regular_independent :
    Admissible recordKinds regular ∧ Independent decimal decimal' regular :=
  ⟨by decide, (records_independent_iff decimal decimal' regular (by decide)).2
    (undisturbed_of_along (by decide))⟩

/-- A channel after a connection. -/
def stray : List Event :=
  (.startElement "configuration" [] :: connection "c") ++
    [.startElement "channel" [("id", "310"), ("label", "X")], .endElement "channel"] ++
      [.endElement "configuration"]

/-- The connection is delivered in the record of the channel. -/
theorem stray_not_independent :
    Admissible recordKinds stray ∧
      (dispatch decimal stray).calls.map (fun c => (c.1, c.2.label, c.2.connections.map Prod.fst)) =
        [(310, "X", ["c"])] ∧
      ¬ Independent decimal decimal' stray := by
  refine ⟨by decide, by decide, ?_⟩
  intro h
  have halike := alike_replace (sameTag_mark (z := "d")) inside_mark []
    (.startElement "configuration" [] :: connection "c")
  obtain ⟨calls, hcalls, hcalls'⟩ := h.channels_apart _ _ _ rfl
    ⟨[("id", "310"), ("label", "X")], [], rfl, List.not_mem_nil⟩ _ halike (by decide) (by decide)
    (by decide)
  have hnone : (dispatch decimal (.startElement "configuration" [] :: connection "c")).calls =
      (dispatch decimal (replace (mark "d") []
        (.startElement "configuration" [] :: connection "c"))).calls := by decide
  rw [← hnone, ← hcalls] at hcalls'
  exact absurd hcalls' (by decide)

end RoqCme.Gateway.Configuration
