import RoqCme.MarketData.Calls

/-! The handlers of the book templates 46, 64 and 47. -/
namespace RoqCme.MarketData
open RoqCme.Mdp RoqCme.Tools
variable {Qp Qo : Type}

/-- `mbp_emplace_back`: a deleted level has no quantity, levels count from zero. -/
def mbpUpdate (item : Book46.Entry) (security : Security Qp Qo) : MBPUpdate :=
  let updateAction := item.mDUpdateAction.map
  { price := (priceNull9 item.mDEntryPx).mul security.displayFactor
    quantity := if updateAction = .delete then 0 else getInt item.mDEntrySize
    numberOfOrders := getInt item.numberOfOrders
    updateAction := updateAction
    priceLevel := getInt item.mDPriceLevel - 1 }

/-- An entry of `md_entries_`. -/
structure MdEntry where
  securityId : Int
  side : Side
  price : Double
  action : UpdateAction
  deriving DecidableEq, Repr

/-- The variables of the loop over the price entries of template 46. -/
structure Book46Loop (Qp Qo : Type) where
  securityId : Int := 0
  security : Option (Found Qp Qo) := none
  isSnapshot : Bool := false
  isSnapshotWorkaround : Bool := false
  layer : Layer := {}
  bids : List MBPUpdate := []
  asks : List MBPUpdate := []
  orders : List MBOUpdate := []
  mdEntries : List MdEntry := []
  calls : List Call := []

namespace Book46Loop

def call (s : Book46Loop Qp Qo) (found : Found Qp Qo) (action : Action) : Book46Loop Qp Qo :=
  { s with calls := s.calls ++ [⟨found.securityId, action⟩] }

def dispatchTopOfBook (s : Book46Loop Qp Qo) (found : Found Qp Qo) : Book46Loop Qp Qo :=
  if s.layer ≠ {} then { s.call found (.topOfBook s.layer) with layer := {} } else s

def dispatchPrices (s : Book46Loop Qp Qo) (found : Found Qp Qo) : Book46Loop Qp Qo :=
  if s.bids ≠ [] ∨ s.asks ≠ [] then
    { s.call found (.dispatchMarketByPrice s.bids s.asks s.isSnapshot) with bids := [], asks := [] }
  else s

def dispatchOrders (s : Book46Loop Qp Qo) (found : Found Qp Qo) : Book46Loop Qp Qo :=
  if s.orders ≠ [] then
    { s.call found (.dispatchMarketByOrder s.orders false) with orders := [] }
  else s

def dispatch (s : Book46Loop Qp Qo) : Book46Loop Qp Qo :=
  match s.security with
  | none => s
  | some found => ((s.dispatchTopOfBook found).dispatchPrices found).dispatchOrders found

/-- `emplace_back` of a price entry. -/
def emplaceBack (s : Book46Loop Qp Qo) (item : Book46.Entry) (security : Security Qp Qo) :
    Book46Loop Qp Qo :=
  let price := (priceNull9 item.mDEntryPx).mul security.displayFactor
  match item.mDEntryType with
  | .bid => { s with bids := s.bids ++ [mbpUpdate item security] }
  | .offer => { s with asks := s.asks ++ [mbpUpdate item security] }
  | .marketBestOffer => { s with layer := { s.layer with askPrice := price } }
  | .marketBestBid => { s with layer := { s.layer with bidPrice := price } }
  | _ => s

/-- The order update that clears a deleted price level. -/
def clearPriceLevel (options : Options) (item : Book46.Entry) (security : Security Qp Qo) :
    List MBOUpdate :=
  let side := item.mDEntryType.map
  let action := item.mDUpdateAction.map
  if options.enableMarketByOrder ∧ action = .delete ∧ side ≠ .undefined ∧
      options.mbpToMboClearPriceLevel then
    [{ price := (priceNull9 item.mDEntryPx).mul security.displayFactor, quantity := 0,
       priority := 0, orderId := none, side := side, action := action }]
  else []

/-- Move on to the security of the next entry. -/
def enter (get : Lookup Qp Qo) (s : Book46Loop Qp Qo) (securityId : Int) : Book46Loop Qp Qo :=
  if securityId ≠ s.securityId then
    { s.dispatch with
      securityId := securityId, security := get.find securityId, isSnapshot := false }
  else s

def flag (s : Book46Loop Qp Qo) (item : Book46.Entry) : Book46Loop Qp Qo :=
  if item.rptSeq = 1 then { s with isSnapshot := true, isSnapshotWorkaround := true } else s

def report (s : Book46Loop Qp Qo) (item : Book46.Entry) : Book46Loop Qp Qo :=
  match s.security with
  | some found => s.call found (.checkReportSequence item.rptSeq)
  | none => s

/-- The order entries refer to the price entries by position, whatever their security. -/
def remember (options : Options) (s : Book46Loop Qp Qo) (item : Book46.Entry) :
    Book46Loop Qp Qo :=
  let entry : MdEntry :=
    { securityId := s.securityId, side := item.mDEntryType.map, price := priceNull9 item.mDEntryPx
      action := item.mDUpdateAction.map }
  if options.enableMarketByOrder then { s with mdEntries := s.mdEntries ++ [entry] } else s

def collect (options : Options) (s : Book46Loop Qp Qo) (item : Book46.Entry) :
    Book46Loop Qp Qo :=
  match s.security with
  | some found =>
    let s := s.emplaceBack item found.security
    { s with orders := s.orders ++ clearPriceLevel options item found.security }
  | none => s

def process (options : Options) (get : Lookup Qp Qo) (s : Book46Loop Qp Qo)
    (item : Book46.Entry) : Book46Loop Qp Qo :=
  ((((s.enter get item.securityID).flag item).report item).remember options item).collect
    options item

def run (options : Options) (get : Lookup Qp Qo) (items : List Book46.Entry) :
    Book46Loop Qp Qo :=
  (items.foldl (process options get) {}).dispatch

end Book46Loop

/-- `emplace_back` of an order entry of template 46. -/
def mboUpdate46 (item : Book46.OrderEntry) (security : Security Qp Qo)
    (side : Side) (price : Double) : MBOUpdate :=
  { price := price.mul security.displayFactor, quantity := getInt item.mDDisplayQty
    priority := getInt item.mDOrderPriority, orderId := some (getInt item.orderID)
    side := side, action := item.orderUpdateAction.map }

/-- The variables of the loop over the order entries; `orders` is `cache_.orders`. -/
structure Order46Loop (Qp Qo : Type) where
  securityId : Int := 0
  security : Option (Found Qp Qo) := none
  orders : List MBOUpdate
  calls : List Call := []

namespace Order46Loop

def dispatch (isSnapshotWorkaround : Bool) (s : Order46Loop Qp Qo) : Order46Loop Qp Qo :=
  match s.security with
  | none => s
  | some found =>
    if s.orders = [] then s
    else
      { s with
        orders := []
        calls := s.calls ++
          [⟨found.securityId, .dispatchMarketByOrder s.orders isSnapshotWorkaround⟩] }

def enter (get : Lookup Qp Qo) (isSnapshotWorkaround : Bool) (s : Order46Loop Qp Qo)
    (securityId : Int) : Order46Loop Qp Qo :=
  if securityId ≠ s.securityId then
    { s.dispatch isSnapshotWorkaround with
      securityId := securityId, security := get.find securityId }
  else s

def collect (s : Order46Loop Qp Qo) (item : Book46.OrderEntry) (entry : MdEntry) :
    Order46Loop Qp Qo :=
  match s.security with
  | some found =>
    { s with orders := s.orders ++ [mboUpdate46 item found.security entry.side entry.price] }
  | none => s

/-- References count from one; an entry without a price entry is left out. -/
def process (get : Lookup Qp Qo) (mdEntries : List MdEntry) (isSnapshotWorkaround : Bool)
    (s : Order46Loop Qp Qo) (item : Book46.OrderEntry) : Order46Loop Qp Qo :=
  let referenceId := getInt item.referenceID
  if referenceId = 0 then s
  else
    match mdEntries[referenceId - 1]? with
    | none => s
    | some entry => (s.enter get isSnapshotWorkaround entry.securityId).collect item entry

def run (get : Lookup Qp Qo) (mdEntries : List MdEntry) (isSnapshotWorkaround : Bool)
    (orders : List MBOUpdate) (items : List Book46.OrderEntry) : Order46Loop Qp Qo :=
  (items.foldl (process get mdEntries isSnapshotWorkaround) { orders := orders }).dispatch
    isSnapshotWorkaround

end Order46Loop

def book46 (options : Options) (get : Lookup Qp Qo) (cache : Cache) (pending : PendingSummary)
    (value : Book46) : Reaction :=
  let mbp := Book46Loop.run options get value.noMDEntries
  if options.enableMarketByOrder then
    let mbo := Order46Loop.run get mbp.mdEntries mbp.isSnapshotWorkaround cache.orders
      value.noOrderIDEntries
    { cache := { cache with orders := mbo.orders }, pending := pending
      exchangeTimeUtc := value.transactTime, calls := mbp.calls ++ mbo.calls }
  else
    { cache := cache, pending := pending
      exchangeTimeUtc := value.transactTime, calls := mbp.calls }

/-- Templates 64, 66 and 50 only check the report sequence. -/
def reportOnly (get : Lookup Qp Qo) (cache : Cache) (pending : PendingSummary)
    (items : List ReportEntry) : Reaction :=
  { cache := cache, pending := pending
    calls := SecurityIterator.run get ReportEntry.securityID (fun _ _ calls => calls)
      (fun _ found item calls =>
        calls ++ [⟨found.securityId, .checkReportSequence item.rptSeq⟩]) items [] }

/-- The variables of the loop over the entries of template 47. -/
structure OrderBook47Loop (Qp Qo : Type) where
  securityId : Int := 0
  security : Option (Found Qp Qo) := none
  orders47 : List Order47
  securityIds47 : List Int

/-- `emplace_back` of an entry of template 47: implied and other types are left out. -/
def emplaceBack47 (item : OrderBook47.Entry) (security : Security Qp Qo)
    (securityId : Int) : List Order47 :=
  let update := fun side =>
    ({ securityId := securityId, price := (priceNull9 item.mDEntryPx).mul security.displayFactor
       quantity := getInt item.mDDisplayQty, priority := getInt item.mDOrderPriority
       orderId := getInt item.orderID, side := side
       action := item.mDUpdateAction.map } : Order47)
  match item.mDEntryType with
  | .bid => [update .buy]
  | .offer => [update .sell]
  | _ => []

def OrderBook47Loop.process (get : Lookup Qp Qo) (s : OrderBook47Loop Qp Qo)
    (item : OrderBook47.Entry) : OrderBook47Loop Qp Qo :=
  let s :=
    if item.securityID ≠ s.securityId then
      let found := get.find item.securityID
      { s with
        securityId := item.securityID, security := found
        securityIds47 :=
          if found.isSome ∧ item.securityID ∉ s.securityIds47 then
            s.securityIds47 ++ [item.securityID]
          else s.securityIds47 }
    else s
  match s.security with
  | some found => { s with orders47 := s.orders47 ++ emplaceBack47 item found.security s.securityId }
  | none => s

def Order47.mboUpdate (item : Order47) : MBOUpdate :=
  { price := item.price, quantity := item.quantity, priority := item.priority
    orderId := some item.orderId, side := item.side, action := item.action }

/-- The calls at the end of an event; the first one also flushes what `cache_.orders` holds. -/
def flush47 (get : Lookup Qp Qo) (orders47 : List Order47) :
    List Int → List MBOUpdate → List MBOUpdate × List Call
  | [], orders => (orders, [])
  | securityId :: rest, orders =>
    match get securityId with
    | some _ =>
      let mine := orders47.filter fun item => item.securityId = securityId
      let r := flush47 get orders47 rest []
      (r.1, ⟨securityId, .dispatchOrderBook47 (orders ++ mine.map Order47.mboUpdate)⟩ :: r.2)
    | none => flush47 get orders47 rest orders

def orderBook47 (options : Options) (get : Lookup Qp Qo) (cache : Cache)
    (pending : PendingSummary) (value : OrderBook47) : Reaction :=
  if options.enableMarketByOrder then
    let s := value.noMDEntries.foldl (OrderBook47Loop.process get)
      { orders47 := cache.orders47, securityIds47 := cache.securityIds47 }
    if value.matchEventIndicator = 0 then
      { cache := { cache with orders47 := s.orders47, securityIds47 := s.securityIds47 }
        pending := pending, exchangeTimeUtc := value.transactTime }
    else
      let r := flush47 get s.orders47 s.securityIds47 cache.orders
      { cache := { orders := r.1 }, pending := pending
        exchangeTimeUtc := value.transactTime, calls := r.2 }
  else { cache := cache, pending := pending, exchangeTimeUtc := value.transactTime }

end RoqCme.MarketData
