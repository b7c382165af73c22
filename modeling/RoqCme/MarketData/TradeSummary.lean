import RoqCme.MarketData.Calls

/-! Trade summaries (templates 48 and 65), which are assembled over several messages, and
statistics (templates 49, 51, 67 and 37). -/
namespace RoqCme.MarketData
open RoqCme.Mdp RoqCme.Tools
variable {Qp Qo : Type}

/-- size_t arithmetic -/
def u64 (n : Nat) : Nat := n % 2 ^ 64

/-- The conversion from int32 to size_t. -/
def toSize (n : Int) : Nat := (n % 2 ^ 64).toNat

def PendingSummary.insertSecurityId (p : PendingSummary) (securityId : Int) : PendingSummary :=
  if securityId ∈ p.securityIds then p
  else { p with securityIds := p.securityIds ++ [securityId] }

def PendingSummary.addEntry (p : PendingSummary) (item : TradeSummary.Entry) : PendingSummary :=
  let p := p.insertSecurityId item.securityID
  { p with
    tradeSummary := p.tradeSummary ++
      [{ securityId := item.securityID, aggressorSide := item.aggressorSide.map
         price := price9 item.mDEntryPx, size := toInt32 item.mDEntrySize
         numberOfOrders := toSize item.numberOfOrders, tradeId := getInt item.mDTradeEntryID }]
    totalNumberOfOrders := u64 (p.totalNumberOfOrders + toSize item.numberOfOrders) }

def PendingSummary.addOrder (p : PendingSummary) (item : TradeSummary.OrderEntry) :
    PendingSummary :=
  { p with orders := p.orders ++ [(item.orderID, toInt32 item.lastQty)] }

/-- The state after the first part of `dispatch_trade_summary`: a message with another
transact time drops what was pending. -/
def PendingSummary.assemble (p : PendingSummary) (value : TradeSummary) : PendingSummary :=
  let p := if value.transactTime = p.transactTime then p else { transactTime := value.transactTime }
  let p := value.noMDEntries.foldl PendingSummary.addEntry p
  value.noOrderIDEntries.foldl PendingSummary.addOrder p

/-- `orders_[offset + offset_2]` for `offset_2 < number_of_orders`; `none` when outside. -/
def ordersFrom (orders : List (Nat × Int)) (offset offset2 numberOfOrders : Nat) :
    Option (List (Nat × Int)) :=
  if numberOfOrders ≤ offset2 then some []
  else if offset + numberOfOrders ≤ orders.length then
    some ((orders.drop (offset + offset2)).take (numberOfOrders - offset2))
  else none

/-- The order updates of one entry. The first order is the aggressor's where there is one. -/
def SummaryEntry.mboUpdates (e : SummaryEntry) (displayFactor : Double)
    (orders : List (Nat × Int)) (offset : Nat) : Option (List MBOUpdate) :=
  let result := fun side (order : Nat × Int) =>
    ({ price := e.price.mul displayFactor, quantity := order.2, priority := 0
       orderId := some order.1, side := side, action := .trade } : MBOUpdate)
  if e.aggressorSide ≠ .undefined then
    match orders[offset]? with
    | none => none
    | some taker =>
      let side := if taker.2 = e.size then e.aggressorSide.invert else e.aggressorSide
      (ordersFrom orders offset 1 e.numberOfOrders).map fun makers => makers.map (result side)
  else
    (ordersFrom orders offset 0 e.numberOfOrders).map fun makers =>
      makers.map (result e.aggressorSide)

/-- The trades of one entry. The aggressor is the taker if it has the whole quantity; else it
joined the price level and its order is a trade of its own. -/
def SummaryEntry.trades (e : SummaryEntry) (displayFactor : Double)
    (orders : List (Nat × Int)) (offset : Nat) : Option (List Trade) :=
  let trade := fun (quantity : Int) takerOrderId makerOrderId =>
    ({ side := e.aggressorSide, price := e.price.mul displayFactor, quantity := quantity
       tradeId := e.tradeId, takerOrderId := takerOrderId, makerOrderId := makerOrderId } : Trade)
  if e.aggressorSide ≠ .undefined then
    match orders[offset]? with
    | none => none
    | some taker =>
      let takerTrade := trade taker.2 (some taker.1) none
      let (takerOrderId, first) :=
        if taker.2 = e.size then
          (some taker.1, if e.numberOfOrders = 1 then [takerTrade] else [])
        else (none, [takerTrade])
      (ordersFrom orders offset 1 e.numberOfOrders).map fun makers =>
        first ++ makers.map fun maker => trade maker.2 takerOrderId (some maker.1)
  else
    (ordersFrom orders offset 0 e.numberOfOrders).map fun makers =>
      makers.map fun maker => trade maker.2 none (some maker.1)

/-- The loop over `trade_summary_` for one security, which keeps the offset into `orders_`. -/
def collect {γ : Type} (f : SummaryEntry → Nat → Option (List γ)) (securityId : Int) :
    Nat → List SummaryEntry → Option (List γ)
  | _, [] => some []
  | offset, e :: rest =>
    match (if securityId = e.securityId then f e offset else some []),
      collect f securityId (u64 (offset + e.numberOfOrders)) rest with
    | some here, some later => some (here ++ later)
    | _, _ => none

/-- The loop over `security_ids_`: one call for each security with something to tell. -/
def forSecurities {γ : Type} (get : Lookup Qp Qo) (content : Int → Security Qp Qo → Option (List γ))
    (action : List γ → Action) : List Int → Option (List Call)
  | [] => some []
  | securityId :: rest =>
    match get securityId, forSecurities get content action rest with
    | none, later => later
    | some security, some later =>
      (content securityId security).map fun items =>
        if items = [] then later else ⟨securityId, action items⟩ :: later
    | some _, none => none

/-- The calls for a complete summary. -/
def PendingSummary.calls (get : Lookup Qp Qo) (p : PendingSummary) : Option (List Call) :=
  let mbo := forSecurities get
    (fun securityId security => collect
      (fun e offset => e.mboUpdates security.displayFactor p.orders offset)
      securityId 0 p.tradeSummary)
    (fun orders => .dispatchMarketByOrder orders false) p.securityIds
  let trades := forSecurities get
    (fun securityId security => collect
      (fun e offset => e.trades security.displayFactor p.orders offset)
      securityId 0 p.tradeSummary)
    .tradeSummary p.securityIds
  match mbo, trades with
  | some mbo, some trades => some (mbo ++ trades)
  | _, _ => none

/-- `check_report_sequence` for the entries of known securities. -/
def reportCalls (get : Lookup Qp Qo) (items : List TradeSummary.Entry) : List Call :=
  items.flatMap fun item =>
    if (get item.securityID).isSome then [⟨item.securityID, .checkReportSequence item.rptSeq⟩]
    else []

/-- `Incremental::dispatch_trade_summary`. After an access outside `orders_` nothing is said
about the rest of the call: the model records the fault and makes no further calls. -/
def dispatchTradeSummary (get : Lookup Qp Qo) (cache : Cache) (pending : PendingSummary)
    (value : TradeSummary) : Reaction :=
  let reports := reportCalls get value.noMDEntries
  let pending := pending.assemble value
  if pending.orders.length < pending.totalNumberOfOrders then
    { cache := cache, pending := pending, exchangeTimeUtc := value.transactTime, calls := reports }
  else
    match pending.calls get with
    | some calls =>
      { cache := cache, pending := {}, exchangeTimeUtc := value.transactTime
        calls := reports ++ calls }
    | none =>
      { cache := cache, pending := {}, fault := true, exchangeTimeUtc := value.transactTime
        calls := reports }

/-- `Incremental::dispatch_statistics`. An entry with the first report number also starts
both books from empty snapshots. -/
def dispatchStatistics {τ : Type} (get : Lookup Qp Qo) (cache : Cache) (pending : PendingSummary)
    (callback : StatisticsEntry τ → Security Qp Qo → Statistics) (value : StatisticsMessage τ) :
    Reaction :=
  let dispatch := fun (_ : Int) (found : Found Qp Qo) (s : List Statistics × List Call) =>
    if s.1 = [] then s
    else ([], s.2 ++ [⟨found.securityId, .statistics s.1⟩])
  let update := fun (_ : Int) (found : Found Qp Qo) (item : StatisticsEntry τ)
      (s : List Statistics × List Call) =>
    let start : List Call :=
      if item.rptSeq = 1 then
        [⟨found.securityId, .dispatchMarketByPrice [] [] true⟩,
          ⟨found.securityId, .dispatchMarketByOrder [] true⟩]
      else []
    (s.1 ++ [callback item found.security],
      s.2 ++ ⟨found.securityId, .checkReportSequence item.rptSeq⟩ :: start)
  { cache := cache, pending := pending, exchangeTimeUtc := value.transactTime
    calls := (SecurityIterator.run get StatisticsEntry.securityID dispatch update
      value.noMDEntries ([], [])).2 }

def statisticsPrice {τ : Type} (type : StatisticsType) (item : StatisticsEntry τ)
    (factor : Double) : Statistics :=
  { type := type, value := (price9 item.mDEntryPx).mul factor }

def statisticsSize {τ : Type} (type : StatisticsType) (item : StatisticsEntry τ) : Statistics :=
  { type := type, value := some (getInt item.mDEntrySize : Int) }

/-- `statistics_emplace_back` -/
def statisticsEmplaceBack {τ : Type} (map : τ → StatisticsType) (item : StatisticsEntry τ)
    (security : Security Qp Qo) : Statistics :=
  if map item.mDEntryType = .openInterest then statisticsSize .openInterest item
  else statisticsPrice (map item.mDEntryType) item security.displayFactor

end RoqCme.MarketData
