import RoqCme.Mdp.Frame
import RoqCme.MarketData.SecurityDefinitions

/-! State common to all channels (`market_data/shared`) and the operations that the feeds
perform on one security. Every operation also returns its effects in order: they are what an
observer of the sequencers, the marks and the dispatcher sees. -/
namespace RoqCme.MarketData
open RoqCme.Mdp RoqCme.Tools

structure Options where
  enableMarketByOrder : Bool := false
  mbpToMboClearPriceLevel : Bool := false
  filterSnapshotFromIncremental : Nat := 0
  deriving DecidableEq, Repr

/-- Bids and asks. -/
abbrev PriceLevels := List MBPUpdate × List MBPUpdate

/-- What the handlers get from outside: options, the two sequencers, the symbol filter. -/
structure Env (Qp Qo : Type) where
  options : Options
  mbpSequencer : Sequencer Qp PriceLevels
  mboSequencer : Sequencer Qo (List MBOUpdate)
  discardSymbol : String → Bool

def Env.direct (options : Options) : Env (Option Nat) (Option Nat) :=
  { options := options, mbpSequencer := .direct _, mboSequencer := .direct _
    discardSymbol := fun _ => false }

inductive Book where
  | mbp | mbo
  deriving DecidableEq, Repr

inductive Mode where
  | snapshot (force : Bool)
  | update (lastExchangeSequence : Nat)
  deriving DecidableEq, Repr

inductive Effect where
  | updateRptSeq (rptSeq : Nat) (resubscribe : Bool)
  | clear (book : Book)
  | resubscribe (book : Book) (value : Nat)
  | submitMbp (levels : PriceLevels) (exchangeSequence : Nat) (mode : Mode)
  | submitMbo (orders : List MBOUpdate) (exchangeSequence : Nat) (mode : Mode)
  | publish (value : Published)
  deriving DecidableEq, Repr

/-- The place in the source that made the effects. -/
inductive Site where
  | checkReportSequence | topOfBook | dispatchMarketByPrice | dispatchMarketByOrder
  | tradeSummary | statistics | marketStatus | referenceData
  | mbpMarketRecovery | mbofdMarketRecovery
  deriving DecidableEq, Repr

structure Record where
  securityId : Int
  site : Site
  effects : List Effect
  deriving DecidableEq, Repr

abbrev SecurityOp (Qp Qo : Type) := Security Qp Qo → Security Qp Qo × List Effect

/-- An entry of `trade_summary_`. -/
structure SummaryEntry where
  securityId : Int
  aggressorSide : Side
  price : Double
  size : Int
  numberOfOrders : Nat
  tradeId : Nat
  deriving DecidableEq, Repr

/-- The trade-summary members of `Shared`. -/
structure PendingSummary where
  tradeSummary : List SummaryEntry := []
  securityIds : List Int := []
  orders : List (Nat × Int) := []
  transactTime : Nat := 0
  totalNumberOfOrders : Nat := 0
  deriving DecidableEq, Repr

/-- `fault` records an access outside `orders_`, which has no defined outcome. -/
structure Shared (Qp Qo : Type) where
  securityDefinitions : SecurityDefinitions Qp Qo := {}
  pending : PendingSummary := {}
  trace : List Record := []
  fault : Bool := false

variable {Qp Qo U : Type}

/-- Perform an operation through a reference to the security, if there is one. -/
def Shared.onSecurity (shared : Shared Qp Qo) (securityId : Int) (site : Site)
    (op : SecurityOp Qp Qo) : Shared Qp Qo :=
  match shared.securityDefinitions.securities securityId with
  | none => shared
  | some security =>
    { shared with
      securityDefinitions := shared.securityDefinitions.setSecurity securityId (op security).1
      trace := shared.trace ++ [⟨securityId, site, (op security).2⟩] }

/-- The reference data published for a record of the secdef file. -/
def secdefReferenceData (item : SecDef) (security : Security Qp Qo) : ReferenceData :=
  { streamId := 0, exchange := item.exchange, symbol := item.symbol, securityType := .futures
    externalSecurityId := 0, quoteCurrency := item.currency, settlementCurrency := ""
    tickSize := item.minPriceIncrement.mul item.displayFactor
    multiplier := if item.multiplier = 0 then none else some (item.multiplier : ℚ)
    minTradeVol := item.minTradeVol, maxTradeVol := item.maxTradeVol, strikeCurrency := ""
    discard := security.discard }

/-- `Shared::read_secdef`: what the file that filled the table leads to. `none` is the fatal
branch for a record without a security. -/
def readSecdef (discardSymbol : String → Bool) (sd : SecurityDefinitions Qp Qo) :
    List SecDef → Option (List ReferenceData)
  | [] => some []
  | item :: items =>
    if discardSymbol item.symbol then readSecdef discardSymbol sd items
    else
      match sd.getSecurity (toInt32 item.securityId) with
      | none => none
      | some security =>
        (readSecdef discardSymbol sd items).map (secdefReferenceData item security :: ·)

/-- The stream, frame and exchange time under which a message is handled. -/
structure Context where
  streamId : Nat
  frame : Frame
  exchangeTimeUtc : Nat
  deriving DecidableEq, Repr

def Context.header (ctx : Context) (security : Security Qp Qo) : Header :=
  { streamId := ctx.streamId, exchange := security.exchange, symbol := security.symbol
    exchangeTimeUtc := ctx.exchangeTimeUtc, exchangeSequence := ctx.frame.sequenceNumber
    sendingTimeUtc := ctx.frame.sendingTime }

/-- An update that only goes to the dispatcher. -/
def publishOp (value : Security Qp Qo → Published) : SecurityOp Qp Qo :=
  fun security => (security, [.publish (value security)])

/-- The callbacks given to a sequencer. `publishSnapshot` gets the content and the answer of
`last_sequence`; `mark` is what `request_snapshot` writes to `resubscribe`. -/
structure Callbacks (U : Type) where
  book : Book
  publishSnapshot : U → Nat → Published
  mark : Nat

def Callbacks.onSnapshotCall (c : Callbacks U) : SnapshotCall U → Nat × List Effect
  | .publishSnapshot content _ lastSequence =>
    (0, [.publish (c.publishSnapshot content lastSequence), .resubscribe c.book 0])
  | .requestSnapshot _ => (c.mark, [.resubscribe c.book c.mark])

def Callbacks.onUpdateCall (c : Callbacks U) (publishUpdate : U → Published)
    (resubscribe : Nat) : UpdateCall U → Nat × List Effect
  | .publishUpdate content => (resubscribe, [.publish (publishUpdate content)])
  | .snapshot call => c.onSnapshotCall call

/-- The mark and the effects after all callbacks of a submission. -/
def Callbacks.onSnapshotCalls (c : Callbacks U) (calls : List (SnapshotCall U))
    (resubscribe : Nat) : Nat × List Effect :=
  calls.foldl (fun r call => ((c.onSnapshotCall call).1, r.2 ++ (c.onSnapshotCall call).2))
    (resubscribe, [])

def Callbacks.onUpdateCalls (c : Callbacks U) (publishUpdate : U → Published)
    (calls : List (UpdateCall U)) (resubscribe : Nat) : Nat × List Effect :=
  calls.foldl (fun r call =>
      ((c.onUpdateCall publishUpdate r.1 call).1, r.2 ++ (c.onUpdateCall publishUpdate r.1 call).2))
    (resubscribe, [])

/-- A submission made by the incremental feed: mark, sequencer and effects afterwards. A bad
state clears the sequencer and asks for a resubscription. -/
def Callbacks.submit (c : Callbacks U) (publishUpdate : U → Published) {Q : Type}
    (sequencer : Sequencer Q U) (q : Q) (resubscribe : Nat) (content : U) (exchangeSequence : Nat) (isSnapshot : Bool) :
    Q × Nat × List Effect :=
  let (q', badState, mark, effects) :=
    if isSnapshot then
      let r := sequencer.snapshot q content exchangeSequence true false
      (r.state, r.badState, c.onSnapshotCalls r.calls resubscribe)
    else
      let r := sequencer.update q content exchangeSequence exchangeSequence
        (sequencer.lastSequence q)
      (r.state, r.badState, c.onUpdateCalls publishUpdate r.calls resubscribe)
  if badState then
    (sequencer.clear q', exchangeSequence,
      effects ++ [.clear c.book, .resubscribe c.book exchangeSequence])
  else (q', mark, effects)

def Mode.ofSnapshot (isSnapshot : Bool) (lastExchangeSequence : Nat) : Mode :=
  if isSnapshot then .snapshot true else .update lastExchangeSequence

/-- `Incremental::dispatch_market_by_price` -/
def dispatchMarketByPrice (env : Env Qp Qo) (ctx : Context) (bids asks : List MBPUpdate)
    (isSnapshot : Bool) : SecurityOp Qp Qo := fun security =>
  let exchangeSequence := ctx.frame.sequenceNumber
  let createUpdate := fun (levels : PriceLevels) updateType =>
    Published.marketByPrice (ctx.header security) levels.1 levels.2 updateType
  let callbacks : Callbacks PriceLevels :=
    { book := .mbp
      publishSnapshot := fun levels _ => createUpdate levels .snapshot
      mark := exchangeSequence }
  let publishUpdate := fun levels => createUpdate levels .incremental
  let (sequencer, resubscribe, effects) := callbacks.submit publishUpdate env.mbpSequencer
    security.mbp.sequencer security.mbp.resubscribe (bids, asks) exchangeSequence isSnapshot
  ({ security with mbp := { sequencer := sequencer, resubscribe := resubscribe } },
    .submitMbp (bids, asks) exchangeSequence
      (Mode.ofSnapshot isSnapshot (env.mbpSequencer.lastSequence security.mbp.sequencer)) ::
      effects)

/-- `Incremental::dispatch_market_by_order` -/
def dispatchMarketByOrder (env : Env Qp Qo) (ctx : Context) (orders : List MBOUpdate)
    (isSnapshot : Bool) : SecurityOp Qp Qo := fun security =>
  let exchangeSequence := ctx.frame.sequenceNumber
  let createUpdate := fun orders updateType =>
    Published.marketByOrder (ctx.header security) orders updateType
  let callbacks : Callbacks (List MBOUpdate) :=
    { book := .mbo
      publishSnapshot := fun orders _ => createUpdate orders .snapshot
      mark := exchangeSequence }
  let publishUpdate := fun orders => createUpdate orders .incremental
  let (sequencer, resubscribe, effects) := callbacks.submit publishUpdate env.mboSequencer
    security.mbo.sequencer security.mbo.resubscribe orders exchangeSequence isSnapshot
  ({ security with mbo :=
      { security.mbo with sequencer := sequencer, resubscribe := resubscribe } },
    .submitMbo orders exchangeSequence
      (Mode.ofSnapshot isSnapshot (env.mboSequencer.lastSequence security.mbo.sequencer)) ::
      effects)

/-- `Incremental::check_report_sequence`. The stale updates carry no exchange time. -/
def checkReportSequence (env : Env Qp Qo) (ctx : Context) (rptSeq : Nat) :
    SecurityOp Qp Qo := fun security =>
  let (resubscribe, security) := security.updateRptSeq rptSeq
  if resubscribe then
    let sequenceNumber := ctx.frame.sequenceNumber
    let header := { ctx with exchangeTimeUtc := 0 }.header security
    ({ security with
        mbp :=
          { sequencer := env.mbpSequencer.clear security.mbp.sequencer
            resubscribe := sequenceNumber }
        mbo :=
          { security.mbo with
            sequencer := env.mboSequencer.clear security.mbo.sequencer
            resubscribe := sequenceNumber } },
      [.updateRptSeq rptSeq true,
        .clear .mbp, .resubscribe .mbp sequenceNumber,
        .publish (.marketByPrice header [] [] .stale),
        .clear .mbo, .resubscribe .mbo sequenceNumber,
        .publish (.marketByOrder header [] .stale)])
  else (security, [.updateRptSeq rptSeq false])

end RoqCme.MarketData
