import RoqCme.MarketData.Channel
import RoqCme.MarketData.Shared

/-! The two market recovery feeds (`market_data/mbp_market_recovery`,
`market_data/mbofd_market_recovery`). They submit snapshots for securities that wait for one. -/
namespace RoqCme.MarketData
open RoqCme.Mdp RoqCme.Tools
variable {Qp Qo U : Type}

/-- The snapshot is forced onto the sequencer when the channel has seen everything since the
resubscription and is not behind the snapshot. -/
def Sequence.force (sequence : Sequence) (resubscribe exchangeSequence : Nat) : Bool :=
  decide (sequence.firstSequenceNumber ≤ resubscribe ∧
    exchangeSequence ≤ sequence.lastSequenceNumber)

/-- A snapshot submitted by a recovery feed. Here a bad state only clears the sequencer. -/
def Callbacks.recover (c : Callbacks U) {Q : Type} (sequencer : Sequencer Q U) (q : Q)
    (resubscribe : Nat) (content : U) (exchangeSequence : Nat) (force : Bool) :
    Q × Nat × List Effect :=
  let r := sequencer.snapshot q content exchangeSequence force true
  let (mark, effects) := c.onSnapshotCalls r.calls resubscribe
  if r.badState then (sequencer.clear r.state, mark, effects ++ [.clear c.book])
  else (r.state, mark, effects)

namespace MBPMarketRecovery

def mbpUpdate (item : Snapshot52.Entry) (security : Security Qp Qo) : MBPUpdate :=
  { price := (priceNull9 item.mDEntryPx).mul security.displayFactor
    quantity := getInt item.mDEntrySize
    numberOfOrders := getInt item.numberOfOrders
    updateAction := .undefined
    priceLevel := getInt item.mDPriceLevel - 1 }

/-- The bids and asks of a snapshot; other entry types are left out. -/
def levels (items : List Snapshot52.Entry) (security : Security Qp Qo) : PriceLevels :=
  items.foldl (fun levels item =>
    match item.mDEntryType with
    | .bid => (levels.1 ++ [mbpUpdate item security], levels.2)
    | .offer => (levels.1, levels.2 ++ [mbpUpdate item security])
    | _ => levels) ([], [])

def dispatchMarketByPrice (env : Env Qp Qo) (ctx : Context) (sequence : Sequence)
    (exchangeSequence : Nat) (levels : PriceLevels) : SecurityOp Qp Qo := fun security =>
  if security.mbp.resubscribe = 0 then (security, [])
  else
    let callbacks : Callbacks PriceLevels :=
      { book := .mbp
        publishSnapshot := fun levels lastSequence =>
          .marketByPrice { ctx.header security with exchangeSequence := lastSequence }
            levels.1 levels.2 .snapshot
        mark := exchangeSequence }
    let force := sequence.force security.mbp.resubscribe exchangeSequence
    let (sequencer, resubscribe, effects) := callbacks.recover env.mbpSequencer
      security.mbp.sequencer security.mbp.resubscribe levels exchangeSequence force
    ({ security with mbp := { sequencer := sequencer, resubscribe := resubscribe } },
      .submitMbp levels exchangeSequence (.snapshot force) :: effects)

/-- Templates 52 and 69. -/
def snapshotFullRefresh (env : Env Qp Qo) (ctx : Context) (sequence : Sequence)
    (value : Snapshot52) : SecurityOp Qp Qo := fun security =>
  if security.mbp.resubscribe = 0 ∨ value.lastMsgSeqNumProcessed < security.mbp.resubscribe then
    (security, [])
  else
    let levels := levels value.noMDEntries security
    if levels = ([], []) then (security, [])
    else
      dispatchMarketByPrice env { ctx with exchangeTimeUtc := value.transactTime } sequence
        value.lastMsgSeqNumProcessed levels security

def onMessage (env : Env Qp Qo) (streamId : Nat) (frame : Frame) (sequence : Sequence)
    (shared : Shared Qp Qo) : Message → Shared Qp Qo
  | .snapshotFullRefresh52 value | .snapshotFullRefreshLongQty69 value =>
    match shared.securityDefinitions.getSecurity value.securityID with
    | some _ => shared.onSecurity value.securityID .mbpMarketRecovery
        (snapshotFullRefresh env ⟨streamId, frame, 0⟩ sequence value)
    | none => shared
  | _ => shared

end MBPMarketRecovery

namespace MBOFDMarketRecovery

def mboUpdate (item : Snapshot53.Entry) (security : Security Qp Qo) : MBOUpdate :=
  { price := (price9 item.mDEntryPx).mul security.displayFactor, quantity := item.mDDisplayQty
    priority := getInt item.mDOrderPriority, orderId := some (getInt item.orderID)
    side := item.mDEntryType.map, action := .new }

/-- The callback given to `update_mbo_snapshot`: it collects the orders of the chunk and
submits everything collected with the last one. -/
def onChunk (env : Env Qp Qo) (streamId : Nat) (sequence : Sequence) (value : Snapshot53)
    (last : Bool) : SecurityOp Qp Qo := fun security =>
  let orders := security.mbo.orders ++ value.noMDEntries.map fun item => mboUpdate item security
  let security := { security with mbo := { security.mbo with orders := orders } }
  if last then
    let exchangeSequence := value.lastMsgSeqNumProcessed
    let header := fun lastSequence : Nat =>
      ({ streamId := streamId, exchange := security.exchange, symbol := security.symbol
         exchangeTimeUtc := 0, exchangeSequence := lastSequence, sendingTimeUtc := 0 } : Header)
    let callbacks : Callbacks (List MBOUpdate) :=
      { book := .mbo
        publishSnapshot := fun orders lastSequence =>
          .marketByOrder (header lastSequence) orders .snapshot
        mark := exchangeSequence }
    let force := sequence.force security.mbo.resubscribe exchangeSequence
    let (sequencer, resubscribe, effects) := callbacks.recover env.mboSequencer
      security.mbo.sequencer security.mbo.resubscribe orders exchangeSequence force
    ({ security with mbo :=
        { security.mbo with sequencer := sequencer, resubscribe := resubscribe } },
      .submitMbo orders exchangeSequence (.snapshot force) :: effects)
  else (security, [])

/-- Template 53. -/
def snapshotFullRefreshOrderBook53 (env : Env Qp Qo) (streamId : Nat) (sequence : Sequence)
    (value : Snapshot53) : SecurityOp Qp Qo := fun security =>
  if security.mbo.resubscribe = 0 ∨ value.lastMsgSeqNumProcessed < security.mbo.resubscribe then
    (security, [])
  else
    (security.updateMboSnapshot value.currentChunk value.noChunks
      (onChunk env streamId sequence value)).2

def onMessage (env : Env Qp Qo) (streamId : Nat) (sequence : Sequence)
    (shared : Shared Qp Qo) : Message → Shared Qp Qo
  | .snapshotFullRefreshOrderBook53 value =>
    match shared.securityDefinitions.getSecurity value.securityID with
    | some _ => shared.onSecurity value.securityID .mbofdMarketRecovery
        (snapshotFullRefreshOrderBook53 env streamId sequence value)
    | none => shared
  | _ => shared

end MBOFDMarketRecovery
end RoqCme.MarketData
