import RoqCme.MarketData.Shared

/-! The calls that the handlers of the incremental feed make (`market_data/incremental`).
A handler reads the message, the lookup of securities and the partial events kept from
earlier messages, and answers with its calls in order. Between two calls it does not look at
what the first one did: it reads static attributes of securities only. -/
namespace RoqCme.MarketData
open RoqCme.Mdp RoqCme.Tools
variable {Qp Qo : Type}

inductive Action where
  | checkReportSequence (rptSeq : Nat)
  | topOfBook (layer : Layer)
  | dispatchMarketByPrice (bids asks : List MBPUpdate) (isSnapshot : Bool)
  | dispatchMarketByOrder (orders : List MBOUpdate) (isSnapshot : Bool)
  | dispatchOrderBook47 (orders : List MBOUpdate)
  | tradeSummary (trades : List Trade)
  | statistics (items : List Statistics)
  | marketStatus (tradingStatus : TradingStatus)
  | referenceData (value : InstrumentDefinition)
  deriving DecidableEq, Repr

structure Call where
  securityId : Int
  action : Action
  deriving DecidableEq, Repr

def Action.site : Action → Site
  | .checkReportSequence _ => .checkReportSequence
  | .topOfBook _ => .topOfBook
  | .dispatchMarketByPrice _ _ _ => .dispatchMarketByPrice
  | .dispatchMarketByOrder _ _ => .dispatchMarketByOrder
  | .dispatchOrderBook47 _ => .dispatchMarketByOrder
  | .tradeSummary _ => .tradeSummary
  | .statistics _ => .statistics
  | .marketStatus _ => .marketStatus
  | .referenceData _ => .referenceData

/-- `protocol::mdp::create_reference_data`, which scales the tick of futures and options only. -/
def createReferenceData (value : InstrumentDefinition) (streamId : Nat)
    (security : Security Qp Qo) : ReferenceData :=
  let minPriceIncrement := priceNull9 value.minPriceIncrement
  let scaled := minPriceIncrement.mul security.displayFactor
  { streamId := streamId, exchange := security.exchange, symbol := security.symbol
    securityType := if value.kind = .option55 then .option else .futures
    externalSecurityId := value.securityID
    quoteCurrency := value.currency
    settlementCurrency := if value.kind = .spread56 then "" else value.settlCurrency
    tickSize :=
      match value.kind with
      | .future54 | .option55 => scaled
      | _ => minPriceIncrement
    multiplier :=
      if value.kind = .future54 ∧ getInt value.contractMultiplier ≠ 0 then
        some (getInt value.contractMultiplier)
      else none
    minTradeVol := value.minTradeVol, maxTradeVol := value.maxTradeVol
    strikeCurrency := if value.kind = .option55 then value.strikeCurrency else ""
    discard := security.discard }

/-- `protocol::mdp::create_market_status` -/
def createMarketStatus (value : InstrumentDefinition) (streamId : Nat)
    (security : Security Qp Qo) : Published :=
  .marketStatus
    { streamId := streamId, exchange := security.exchange, symbol := security.symbol
      exchangeTimeUtc := 0, exchangeSequence := 0, sendingTimeUtc := 0 }
    value.mDSecurityTradingStatus.map

def Action.op (env : Env Qp Qo) (ctx : Context) : Action → SecurityOp Qp Qo
  | .checkReportSequence rptSeq => MarketData.checkReportSequence env ctx rptSeq
  | .topOfBook layer => publishOp fun s => .topOfBook (ctx.header s) layer .snapshot
  | .dispatchMarketByPrice bids asks isSnapshot =>
    MarketData.dispatchMarketByPrice env ctx bids asks isSnapshot
  | .dispatchMarketByOrder orders isSnapshot =>
    MarketData.dispatchMarketByOrder env ctx orders isSnapshot
  | .dispatchOrderBook47 orders => fun s =>
    MarketData.dispatchMarketByOrder env ctx orders (decide (s.rptSeq = 0)) s
  | .tradeSummary trades => publishOp fun s => .tradeSummary (ctx.header s) trades
  | .statistics items => publishOp fun s => .statistics (ctx.header s) items .incremental
  | .marketStatus status => publishOp fun s => .marketStatus (ctx.header s) status
  | .referenceData value => fun s =>
    (s, .publish (.referenceData (createReferenceData value ctx.streamId s)) ::
      if s.discard then [] else [.publish (createMarketStatus value ctx.streamId s)])

def Call.perform (env : Env Qp Qo) (ctx : Context) (shared : Shared Qp Qo) (call : Call) :
    Shared Qp Qo :=
  shared.onSecurity call.securityId call.action.site (call.action.op env ctx)

def performAll (env : Env Qp Qo) (ctx : Context) (calls : List Call) (shared : Shared Qp Qo) :
    Shared Qp Qo :=
  calls.foldl (Call.perform env ctx) shared

/-- A reference to a security: the table entry it points to and the static attributes. -/
structure Found (Qp Qo : Type) where
  securityId : Int
  security : Security Qp Qo

abbrev Lookup (Qp Qo : Type) := Int → Option (Security Qp Qo)

def Lookup.find (get : Lookup Qp Qo) (securityId : Int) : Option (Found Qp Qo) :=
  (get securityId).map (Found.mk securityId)

/-- An order of template 47, kept until the end of its event. -/
structure Order47 where
  securityId : Int
  price : Double
  quantity : Int
  priority : Nat
  orderId : Nat
  side : Side
  action : UpdateAction
  deriving DecidableEq, Repr

/-- `Incremental::Cache`, common to the two feeds of a channel. -/
structure Cache where
  orders : List MBOUpdate := []
  orders47 : List Order47 := []
  securityIds47 : List Int := []
  deriving DecidableEq, Repr

section SecurityIterator
variable {α τ : Type} (get : Lookup Qp Qo) (securityID : α → Int)
variable (dispatch : Int → Found Qp Qo → τ → τ) (callback : Int → Found Qp Qo → α → τ → τ)

/-- The members of `SecurityIterator`, and in `state` what its two lambdas capture. -/
structure SecurityIterator (Qp Qo τ : Type) where
  securityId : Int := 0
  security : Option (Found Qp Qo) := none
  state : τ

def SecurityIterator.enter (it : SecurityIterator Qp Qo τ) (securityId : Int) :
    SecurityIterator Qp Qo τ :=
  if securityId ≠ it.securityId then
    { securityId := securityId, security := get.find securityId
      state :=
        match it.security with
        -- the id passed along is already that of the next security
        | some found => dispatch securityId found it.state
        | none => it.state }
  else it

def SecurityIterator.visit (it : SecurityIterator Qp Qo τ) (item : α) :
    SecurityIterator Qp Qo τ :=
  match it.security with
  | some found => { it with state := callback it.securityId found item it.state }
  | none => it

def SecurityIterator.step (it : SecurityIterator Qp Qo τ) (item : α) :
    SecurityIterator Qp Qo τ :=
  SecurityIterator.visit callback (SecurityIterator.enter get dispatch it (securityID item)) item

def SecurityIterator.run (items : List α) (state : τ) : τ :=
  let it := items.foldl (SecurityIterator.step get securityID dispatch callback)
    { state := state }
  match it.security with
  | some found => dispatch it.securityId found it.state
  | none => it.state

end SecurityIterator

/-- What a handler leaves behind: the partial events and the calls it makes. -/
structure Reaction where
  cache : Cache
  pending : PendingSummary
  fault : Bool := false
  exchangeTimeUtc : Nat := 0
  calls : List Call := []
  deriving DecidableEq, Repr

end RoqCme.MarketData
