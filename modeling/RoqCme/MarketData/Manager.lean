import RoqCme.MarketData.Incremental
import RoqCme.MarketData.Recovery

/-! All channels of the gateway (`market_data/manager`): each has its own sequence, buffer
and cache, while the securities and the pending trade summary are shared. -/
namespace RoqCme.MarketData
open RoqCme.Lib RoqCme.Mdp RoqCme.Tools
variable {β Qp Qo : Type}

inductive ConnectionType where
  | instrumentDefinition | mbpMarketRecovery | mbofdMarketRecovery | incremental
  deriving DecidableEq, Repr

/-- The generated codec is not part of the sources: `messages` is what it makes of a packet.
The stream ids of a channel are given out by its constructor. -/
structure Setup (β Qp Qo : Type) where
  env : Env Qp Qo
  buffer : KeyedBuffer β (List UInt8)
  messages : List UInt8 → List Message
  streamId : Nat → ConnectionType → Priority → Nat

/-- Ten slots for each channel, direct sequencers, and a codec that knows these bodies. -/
def Setup.ofBodies (options : Options) (bodies : List (List UInt8 × List Message)) :
    Setup (List (Nat × List UInt8)) (Option Nat) (Option Nat) :=
  { env := Env.direct options, buffer := KeyedBuffer.slots _ 10
    messages := fun payload => (bodies.lookup (payload.drop Frame.size)).getD []
    streamId := fun _ _ _ => 1 }

structure Channel2 (β : Type) where
  channel : Channel β (List UInt8)
  incrementalCache : Cache := {}

structure Manager (β Qp Qo : Type) where
  channels : Nat → Option (Channel2 β)
  shared : Shared Qp Qo

/-- `protocol::mdp::Parser::dispatch` for a handler working on `σ`. -/
def Setup.parse {σ : Type} (S : Setup β Qp Qo) (handler : Frame → σ → Message → σ)
    (payload : List UInt8) (st : σ) : σ :=
  match Frame.parse payload with
  | some frame => (S.messages payload).foldl (handler frame) st
  | none => st

/-- The two incremental feeds of a channel; a reset empties the cache of the channel only. -/
def Setup.arbiter (S : Setup β Qp Qo) (channelId : Nat) :
    Arbiter β (List UInt8) (Cache × Shared Qp Qo) :=
  { buffer := S.buffer
    frame := Frame.parse
    filterSnapshotFromIncremental := S.env.options.filterSnapshotFromIncremental
    parse := fun priority payload st =>
      S.parse (Incremental.onMessage S.env (S.streamId channelId .incremental priority)) payload st
    reset := fun st => ({}, st.2) }

structure Packet where
  channelId : Nat
  connectionType : ConnectionType
  priority : Priority
  payload : List UInt8
  deriving DecidableEq, Repr

/-- A packet for a channel, given the state it finds there. -/
def Setup.onChannel (S : Setup β Qp Qo) (packet : Packet) (item : Channel2 β)
    (shared : Shared Qp Qo) : Channel2 β × Shared Qp Qo :=
  let streamId := S.streamId packet.channelId packet.connectionType packet.priority
  match packet.connectionType with
  | .instrumentDefinition =>
    (item, S.parse (InstrumentDefinition.onMessage S.env streamId) packet.payload shared)
  | .mbpMarketRecovery =>
    (item, S.parse (fun frame =>
      MBPMarketRecovery.onMessage S.env streamId frame item.channel.sequence) packet.payload shared)
  | .mbofdMarketRecovery =>
    (item, S.parse (fun _ =>
      MBOFDMarketRecovery.onMessage S.env streamId item.channel.sequence) packet.payload shared)
  | .incremental =>
    let r := (S.arbiter packet.channelId).dispatch packet.priority packet.payload
      (item.channel, item.incrementalCache, shared)
    (⟨r.1, r.2.1⟩, r.2.2)

def Setup.dispatch (S : Setup β Qp Qo) (manager : Manager β Qp Qo) (packet : Packet) :
    Manager β Qp Qo :=
  match manager.channels packet.channelId with
  | none => manager
  | some item =>
    let r := S.onChannel packet item manager.shared
    { channels := Function.update manager.channels packet.channelId (some r.1), shared := r.2 }

/-- The gateway after construction: idle channels and the instruments of a secdef file. -/
def Setup.start (S : Setup β Qp Qo) (channelIds : List Nat) (b : β) (items : List SecDef) :
    Manager β Qp Qo :=
  { channels := fun channelId =>
      if channelId ∈ channelIds then some { channel := { buffer := b } } else none
    shared :=
      { securityDefinitions := SecurityDefinitions.load S.env.discardSymbol
          S.env.mbpSequencer.init S.env.mboSequencer.init items } }

def Setup.run (S : Setup β Qp Qo) (packets : List Packet) (manager : Manager β Qp Qo) :
    Manager β Qp Qo :=
  packets.foldl S.dispatch manager

end RoqCme.MarketData
