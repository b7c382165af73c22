import RoqCme.MarketData.OrderBooks
import RoqCme.MarketData.TradeSummary

/-! The incremental feed: one handler for each template, and runs over decoded messages. -/
namespace RoqCme.MarketData
open RoqCme.Mdp RoqCme.Tools
variable {Qp Qo : Type}

/-- Both the named security and every member of the named group get the status. -/
def securityStatus30 (sd : SecurityDefinitions Qp Qo) (cache : Cache) (pending : PendingSummary)
    (value : SecurityStatus30) : Reaction :=
  let dispatch := fun (securityId : Int) =>
    match sd.getSecurity securityId with
    | some _ => [(⟨securityId, .marketStatus value.securityTradingStatus.map⟩ : Call)]
    | none => []
  let securityId := getInt value.securityID
  { cache := cache, pending := pending, exchangeTimeUtc := value.transactTime
    calls :=
      (if securityId ≠ 0 then dispatch securityId else []) ++
        if value.securityGroup ≠ "" then
          (sd.getSecurityGroup value.securityGroup).flatMap dispatch
        else [] }

/-- Only a future is created from the incremental feed, and published when it is new. -/
def instrumentDefinition (sd : SecurityDefinitions Qp Qo) (cache : Cache)
    (pending : PendingSummary) (value : InstrumentDefinition) : Reaction :=
  { cache := cache, pending := pending
    calls :=
      if value.kind = .future54 then
        if sd.hasSecurity value.securityID then []
        else [⟨value.securityID, .referenceData value⟩]
      else
        match sd.getSecurityInclDiscard value.securityID with
        | some _ => [⟨value.securityID, .referenceData value⟩]
        | none => [] }

/-- What the handler of a message does, given the state it finds. -/
def react (options : Options) (sd : SecurityDefinitions Qp Qo) (cache : Cache)
    (pending : PendingSummary) : Message → Reaction
  | .securityStatus30 value => securityStatus30 sd cache pending value
  | .instrumentDefinition value => instrumentDefinition sd cache pending value
  | .book46 value => book46 options sd.getSecurity cache pending value
  | .bookLongQty64 items => reportOnly sd.getSecurity cache pending items
  | .orderBook47 value => orderBook47 options sd.getSecurity cache pending value
  | .tradeSummary48 value => dispatchTradeSummary sd.getSecurity cache pending value
  | .tradeSummaryLongQty65 value => dispatchTradeSummary sd.getSecurity cache pending value
  | .dailyStatistics49 value => dispatchStatistics sd.getSecurity cache pending
      (statisticsEmplaceBack MDEntryTypeDailyStatistics.map) value
  | .sessionStatistics51 value => dispatchStatistics sd.getSecurity cache pending
      (statisticsEmplaceBack MDEntryTypeStatistics.map) value
  | .sessionStatisticsLongQty67 value => dispatchStatistics sd.getSecurity cache pending
      (statisticsEmplaceBack MDEntryTypeStatistics.map) value
  | .volume37 value => dispatchStatistics sd.getSecurity cache pending
      (fun item _ => statisticsSize .tradeVolume item) value
  | .volumeLongQty66 items => reportOnly sd.getSecurity cache pending items
  | .limitsBanding50 items => reportOnly sd.getSecurity cache pending items
  | .adminHeartbeat12 | .channelReset4 | .quoteRequest39 | .snapshotFullRefresh52 _
  | .snapshotFullRefreshLongQty69 _ | .snapshotFullRefreshOrderBook53 _ =>
    { cache := cache, pending := pending }

/-- The definitions with which the calls of the handler run. -/
def definitionsAfter (env : Env Qp Qo) (sd : SecurityDefinitions Qp Qo) :
    Message → SecurityDefinitions Qp Qo
  | .instrumentDefinition value =>
    if value.kind = .future54 then
      sd.define env.discardSymbol env.mbpSequencer.init env.mboSequencer.init value
    else sd
  | _ => sd

/-- One message of the incremental feed with stream id `streamId`. -/
def Incremental.onMessage (env : Env Qp Qo) (streamId : Nat) (frame : Frame)
    (st : Cache × Shared Qp Qo) (message : Message) : Cache × Shared Qp Qo :=
  let r := react env.options st.2.securityDefinitions st.1 st.2.pending message
  let shared : Shared Qp Qo :=
    { st.2 with
      securityDefinitions := definitionsAfter env st.2.securityDefinitions message
      pending := r.pending, fault := st.2.fault || r.fault }
  (r.cache, performAll env ⟨streamId, frame, r.exchangeTimeUtc⟩ r.calls shared)

/-- `InstrumentDefinition::operator()`: on this feed every kind is created. -/
def InstrumentDefinition.onMessage (env : Env Qp Qo) (streamId : Nat) (frame : Frame)
    (shared : Shared Qp Qo) : Message → Shared Qp Qo
  | .instrumentDefinition value =>
    if shared.securityDefinitions.hasSecurity value.securityID then shared
    else
      let sd := shared.securityDefinitions.define env.discardSymbol env.mbpSequencer.init
        env.mboSequencer.init value
      performAll env ⟨streamId, frame, 0⟩ [⟨value.securityID, .referenceData value⟩]
        { shared with securityDefinitions := sd }
  | _ => shared

end RoqCme.MarketData
