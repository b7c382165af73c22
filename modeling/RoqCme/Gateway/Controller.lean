import RoqCme.Gateway.OrderEntry

/-! The controller of the gateway (`gateway/controller`) creates the streams of order entry, one
for each market segment and account, and hands the requests of clients to them. It finds a stream
by the account alone. -/
namespace RoqCme.Gateway
open RoqCme.MarketData
variable {Qp Qo : Type}

/-- `ilink::ConfigReader::MarketSegment`; the controller reads the primary host only. -/
structure MarketSegment where
  primaryHostIp : String
  deriving DecidableEq, Repr

/-- `ilink_config_` -/
abbrev IlinkConfig := UInt8 → Option MarketSegment

/-- `Shared::get_market_segment` -/
def IlinkConfig.getMarketSegment (config : IlinkConfig) (marketSegmentId : UInt8) :
    Option MarketSegment :=
  config marketSegmentId

structure IlinkSettings where
  firmId : String
  port : Nat
  location : String
  marketSegmentIds : List String
  deriving DecidableEq, Repr

/-- An order entry and the stream it writes to. -/
structure Stream where
  streamId : UInt16
  host : String
  port : Nat
  entry : OrderEntry
  deriving DecidableEq, Repr

/-- `streamId` is the last one given out. -/
structure Controller where
  streamId : UInt16
  orderEntry : String → Option Stream := fun _ => none

/-- The order entry of an account as it is constructed, with an id of eight bits. -/
def IlinkSettings.orderEntry (settings : IlinkSettings) (marketSegmentId : UInt8)
    (account : String) : OrderEntry :=
  { marketSegmentId := marketSegmentId.toNat, account := account, firmId := settings.firmId
    location := settings.location }

namespace Controller

def tryEmplace (c : Controller) (name : String) (stream : Stream) : Controller :=
  match c.orderEntry name with
  | some _ => c
  | none => { c with orderEntry := Function.update c.orderEntry name (some stream) }

/-- The body of the loop over the accounts. The stream id is used up even if the name is taken. -/
def createStream (settings : IlinkSettings) (marketSegmentId : UInt16) (segment : MarketSegment)
    (c : Controller) (account : String) : Controller :=
  let streamId := c.streamId + 1
  { c with streamId := streamId }.tryEmplace account
    { streamId := streamId, host := segment.primaryHostIp, port := settings.port
      entry := settings.orderEntry marketSegmentId.toUInt8 account }

section Create
variable (fromChars : String → Option UInt16) (settings : IlinkSettings) (config : IlinkConfig)
variable (accounts : List String)

/-- The loop over the market segments. `from_chars` belongs to another library; no result is an
exception. -/
def createStreams : List String → Controller → Except Failure Controller
  | [], c => .ok c
  | item :: rest, c =>
    match fromChars item with
    | none => .error .runtimeError
    | some marketSegmentId =>
      match config.getMarketSegment marketSegmentId.toUInt8 with
      | none => .error .fatal
      | some segment =>
        createStreams rest (accounts.foldl (createStream settings marketSegmentId segment) c)

def createOrderEntry (streamId : UInt16) : Except Failure Controller :=
  if settings.marketSegmentIds = [] then .ok { streamId := streamId }
  else if settings.firmId = "" then .error .fatal
  else createStreams fromChars settings config accounts settings.marketSegmentIds
    { streamId := streamId }

end Create

def getOrderEntry (c : Controller) (account : String) : Except Failure Stream :=
  match c.orderEntry account with
  | none => .error .runtimeError
  | some stream => .ok stream

/-- `CreateOrder`, `ModifyOrder` and `CancelOrder` -/
def onRequest (env : OrderEnv) (sd : SecurityDefinitions Qp Qo) (c : Controller) (account : String)
    (request : OrderEntry.Request) : Except Failure (Controller × Step) :=
  match c.getOrderEntry account with
  | .error failure => .error failure
  | .ok stream =>
    let step := stream.entry.onRequest env sd request
    .ok ({ c with orderEntry :=
      Function.update c.orderEntry account (some { stream with entry := step.entry }) }, step)

/-- The order entry that an account has. -/
def entryOf (c : Controller) (account : String) : Option OrderEntry :=
  (c.orderEntry account).map Stream.entry

theorem getOrderEntry_eq_ok {c : Controller} {account : String} {stream : Stream} :
    c.getOrderEntry account = .ok stream ↔ c.orderEntry account = some stream := by
  rw [getOrderEntry]
  cases c.orderEntry account with
  | none => simp
  | some stream' => simp

theorem tryEmplace_entryOf (c : Controller) (name account : String) (stream : Stream) :
    (c.tryEmplace name stream).entryOf account =
      (c.entryOf account).or (if account = name then some stream.entry else none) := by
  rw [tryEmplace]
  cases hname : c.orderEntry name with
  | some old =>
    by_cases h : account = name
    · rw [entryOf, h, hname]
      rfl
    · rw [if_neg h, Option.or_none]
  | none =>
    by_cases h : account = name
    · simp only [entryOf, h, hname, Function.update_self, if_true]
      rfl
    · simp only [entryOf, Function.update_of_ne h, if_neg h, Option.or_none]

/-- The loop over the accounts gives a stream of this segment to each account that has none. -/
theorem foldl_createStream_entryOf (settings : IlinkSettings) (marketSegmentId : UInt16)
    (segment : MarketSegment) (accounts : List String) (c : Controller) (account : String) :
    (accounts.foldl (createStream settings marketSegmentId segment) c).entryOf account =
      (c.entryOf account).or (if account ∈ accounts then
        some (settings.orderEntry marketSegmentId.toUInt8 account) else none) := by
  induction accounts generalizing c with
  | nil => simp
  | cons name rest ih =>
    have hone : (createStream settings marketSegmentId segment c name).entryOf account =
        (c.entryOf account).or (if account = name then
          some (settings.orderEntry marketSegmentId.toUInt8 name) else none) :=
      tryEmplace_entryOf { c with streamId := c.streamId + 1 } name account _
    rw [List.foldl_cons, ih, hone, Option.or_assoc]
    by_cases h : account = name
    · subst h
      simp
    · simp [h]

section Create
variable {fromChars : String → Option UInt16} (settings : IlinkSettings) {config : IlinkConfig}
variable (accounts : List String)

/-- Every stream is one of the first segment. -/
theorem createStreams_entryOf {items : List String} {ids : List UInt16}
    (hids : items.map fromChars = ids.map some) (hall : ∀ id ∈ ids, config id.toUInt8 ≠ none)
    (c : Controller) :
    ∃ c', createStreams fromChars settings config accounts items c = .ok c' ∧
      ∀ account, c'.entryOf account = (c.entryOf account).or (if account ∈ accounts then
        ids.head?.map fun id => settings.orderEntry id.toUInt8 account else none) := by
  induction items generalizing ids c with
  | nil =>
    cases ids with
    | nil => exact ⟨c, rfl, by simp⟩
    | cons id ids => cases hids
  | cons item rest ih =>
    cases ids with
    | nil => cases hids
    | cons id ids =>
      rw [List.map_cons, List.map_cons, List.cons.injEq] at hids
      cases hsegment : config id.toUInt8 with
      | none => exact absurd hsegment (hall id List.mem_cons_self)
      | some segment =>
        obtain ⟨c', hc', hentry⟩ := ih hids.2 (fun i hi => hall i (List.mem_cons_of_mem id hi))
          (accounts.foldl (createStream settings id segment) c)
        refine ⟨c', ?_, ?_⟩
        · rw [createStreams, hids.1]
          simp only [IlinkConfig.getMarketSegment, hsegment]
          exact hc'
        · intro account
          rw [hentry, foldl_createStream_entryOf]
          by_cases h : account ∈ accounts
          · simp [h]
          · simp [h]

/-- One unknown segment, after the narrowing, and nothing is created. -/
theorem createStreams_error {items : List String} {ids : List UInt16}
    (hids : items.map fromChars = ids.map some) (h : ∃ id ∈ ids, config id.toUInt8 = none)
    (c : Controller) :
    createStreams fromChars settings config accounts items c = .error .fatal := by
  induction items generalizing ids c with
  | nil =>
    cases ids with
    | nil => simp at h
    | cons id ids => cases hids
  | cons item rest ih =>
    cases ids with
    | nil => cases hids
    | cons id ids =>
      rw [List.map_cons, List.map_cons, List.cons.injEq] at hids
      rw [createStreams, hids.1]
      simp only [IlinkConfig.getMarketSegment]
      cases hsegment : config id.toUInt8 with
      | none => rfl
      | some segment =>
        obtain ⟨i, hi, hnone⟩ := h
        cases List.mem_cons.1 hi with
        | inl heq =>
          rw [heq, hsegment] at hnone
          cases hnone
        | inr hi => exact ih hids.2 ⟨i, hi, hnone⟩ _

end Create

/-- There is a way to the stream of every pair of segment and account, and an order goes to a
segment that knows its symbol where there is one. -/
structure Serves (Qp Qo : Type) (c : Controller) (ids : List UInt16) (accounts : List String) :
    Prop where
  stream : ∀ id ∈ ids, ∀ account ∈ accounts, ∃ name stream,
    c.getOrderEntry name = .ok stream ∧ stream.entry.marketSegmentId = id.toNat ∧
      stream.entry.account = account
  handed : ∀ account ∈ accounts, ∀ (sd : SecurityDefinitions Qp Qo) (order : Order),
    (∃ id ∈ ids, (sd.findSecurityId id.toNat order.symbol).isSome) →
    ∃ id ∈ ids, (sd.findSecurityId id.toNat order.symbol).isSome ∧
      ∃ entry : OrderEntry, entry.marketSegmentId = id.toNat ∧ entry.account = account ∧
        ∀ env createOrder requestId,
          (c.onRequest env sd account (.create createOrder order requestId)).map Prod.snd =
            .ok (entry.onRequest env sd (.create createOrder order requestId))

/-- The segment is configured: its id has eight bits and a host is known for it. -/
def Configured (config : IlinkConfig) (id : UInt16) : Prop :=
  id.toNat < 256 ∧ config id.toUInt8 ≠ none

/-- What the list of market segments promises: a stream for each of them if they are configured, and
a refusal of ids with more than eight bits. -/
structure Promised (Qp Qo : Type) (config : IlinkConfig) (ids : List UInt16)
    (accounts : List String) (created : Except Failure Controller) : Prop where
  streams : (∀ id ∈ ids, Configured config id) → ∃ c, created = .ok c ∧ c.Serves Qp Qo ids accounts
  refuses : (∃ id ∈ ids, 256 ≤ id.toNat) → ∃ failure, created = .error failure

section Create
variable {fromChars : String → Option UInt16} {settings : IlinkSettings} {config : IlinkConfig}
variable {accounts : List String}

theorem toUInt8_toNat {id : UInt16} (h : id.toNat < 256) : id.toUInt8.toNat = id.toNat := by
  rw [UInt16.toNat_toUInt8, Nat.mod_eq_of_lt h]

/-- With one segment every account is served. -/
theorem serves_of_one_segment {c : Controller} {ids : List UInt16} {first : UInt16}
    (hentry : ∀ account, c.entryOf account = if account ∈ accounts then
      some (settings.orderEntry first.toUInt8 account) else none)
    (hfirst : first.toNat < 256) (hall : ∀ id ∈ ids, id = first) : c.Serves Qp Qo ids accounts := by
  have hstream : ∀ account ∈ accounts, ∃ stream, c.orderEntry account = some stream ∧
      stream.entry = settings.orderEntry first.toUInt8 account := by
    intro account hmem
    have he := hentry account
    rw [if_pos hmem, entryOf, Option.map_eq_some_iff] at he
    exact he
  constructor
  · intro id hid account hmem
    obtain ⟨stream, hstream, he⟩ := hstream account hmem
    refine ⟨account, stream, getOrderEntry_eq_ok.2 hstream, ?_, ?_⟩
    · rw [he, hall id hid]
      exact toUInt8_toNat hfirst
    · rw [he]
      rfl
  · rintro account hmem sd order ⟨id, hid, hsome⟩
    obtain ⟨stream, hstream, he⟩ := hstream account hmem
    refine ⟨id, hid, hsome, stream.entry, ?_, ?_, ?_⟩
    · rw [he, hall id hid]
      exact toUInt8_toNat hfirst
    · rw [he]
      rfl
    · intro env createOrder requestId
      rw [onRequest, getOrderEntry_eq_ok.2 hstream]
      rfl

theorem createOrderEntry_eq (config : IlinkConfig) (accounts : List String) {ids : List UInt16}
    (hids : settings.marketSegmentIds.map fromChars = ids.map some) (hne : ids ≠ [])
    (hfirm : settings.firmId ≠ "") (streamId : UInt16) :
    createOrderEntry fromChars settings config accounts streamId =
      createStreams fromChars settings config accounts settings.marketSegmentIds
        { streamId := streamId } := by
  have hitems : settings.marketSegmentIds ≠ [] := by
    intro h
    rw [h, List.map_nil] at hids
    exact hne (List.map_eq_nil_iff.1 hids.symm)
  rw [createOrderEntry, if_neg hitems, if_neg hfirm]

/-- If the segments are known after the narrowing, every account has a stream to the first one. -/
theorem createOrderEntry_entryOf (accounts : List String) {first : UInt16} {rest : List UInt16}
    (hids : settings.marketSegmentIds.map fromChars = (first :: rest).map some)
    (hfirm : settings.firmId ≠ "") (streamId : UInt16)
    (hknown : ∀ id ∈ first :: rest, config id.toUInt8 ≠ none) :
    ∃ c, createOrderEntry fromChars settings config accounts streamId = .ok c ∧
      ∀ name, c.entryOf name = if name ∈ accounts then
        some (settings.orderEntry first.toUInt8 name) else none := by
  obtain ⟨c, hc, hentry⟩ := createStreams_entryOf settings accounts hids hknown
    { streamId := streamId }
  have hcreate := createOrderEntry_eq config accounts hids (List.cons_ne_nil first rest) hfirm streamId
  exact ⟨c, hcreate.trans hc, hentry⟩

/-- With every stream to the first segment, no other one is served. -/
theorem eq_first_of_serves {c : Controller} {ids : List UInt16} {first id : UInt16}
    {account : String}
    (hentry : ∀ account, c.entryOf account = if account ∈ accounts then
      some (settings.orderEntry first.toUInt8 account) else none)
    (hfirst : first.toNat < 256) (hserves : c.Serves Qp Qo ids accounts)
    (haccount : account ∈ accounts) (hid : id ∈ ids) : id = first := by
  obtain ⟨name, stream, hget, hsegment, -⟩ := hserves.stream id hid account haccount
  have he := hentry name
  rw [entryOf, getOrderEntry_eq_ok.1 hget, Option.map_some] at he
  split at he
  · rw [Option.some.injEq] at he
    rw [← UInt16.toNat_inj, ← hsegment, he]
    exact toUInt8_toNat hfirst
  · cases he

/-- For the ids that the texts of the flag stand for: the promise is kept exactly when the ids are
all the same if all of them are configured, and one of them is unknown after the narrowing to eight
bits if one of them has more. -/
theorem segments_served_iff (ids : List UInt16) (streamId : UInt16)
    (hids : settings.marketSegmentIds.map fromChars = ids.map some) (hne : ids ≠ [])
    (haccounts : accounts ≠ []) (hfirm : settings.firmId ≠ "") :
    Promised Qp Qo config ids accounts
        (createOrderEntry fromChars settings config accounts streamId) ↔
      ((∀ id ∈ ids, Configured config id) → ∀ a ∈ ids, ∀ b ∈ ids, a = b) ∧
        ((∃ id ∈ ids, 256 ≤ id.toNat) → ∃ id ∈ ids, config id.toUInt8 = none) := by
  obtain ⟨first, rest, rfl⟩ := List.exists_cons_of_ne_nil hne
  obtain ⟨account, others, rfl⟩ := List.exists_cons_of_ne_nil haccounts
  constructor
  · rintro ⟨hstreams, hrefuses⟩
    constructor
    · intro hconf
      obtain ⟨c, hc, hserves⟩ := hstreams hconf
      obtain ⟨c', hc', hentry⟩ := createOrderEntry_entryOf (account :: others) hids hfirm streamId
        fun id hid => (hconf id hid).2
      rw [hc, Except.ok.injEq] at hc'
      subst hc'
      have hfirst := (hconf first List.mem_cons_self).1
      intro a ha b hb
      rw [eq_first_of_serves hentry hfirst hserves List.mem_cons_self ha,
        eq_first_of_serves hentry hfirst hserves List.mem_cons_self hb]
    · intro hwide
      obtain ⟨failure, hfail⟩ := hrefuses hwide
      by_contra hnone
      push Not at hnone
      obtain ⟨c, hc, -⟩ := createOrderEntry_entryOf (account :: others) hids hfirm streamId hnone
      rw [hc] at hfail
      cases hfail
  · rintro ⟨hsame, hnarrow⟩
    constructor
    · intro hconf
      obtain ⟨c, hc, hentry⟩ := createOrderEntry_entryOf (account :: others) hids hfirm streamId
        fun id hid => (hconf id hid).2
      refine ⟨c, hc, serves_of_one_segment hentry (hconf first List.mem_cons_self).1 ?_⟩
      intro id hid
      exact hsame hconf id hid first List.mem_cons_self
    · intro hwide
      have hcreate := createOrderEntry_eq config (account :: others) hids hne hfirm streamId
      exact ⟨.fatal, hcreate.trans (createStreams_error settings _ hids (hnarrow hwide) _)⟩

end Create

/-- Decimal digits, as long as the number fits. -/
def uint16FromChars (text : String) : Option UInt16 :=
  if text = "" then none
  else
    (text.toList.foldlM (fun n (c : Char) =>
      if c.isDigit then some (10 * n + (c.toNat - '0'.toNat)) else none) 0).bind fun n =>
        if n < 2 ^ 16 then some (UInt16.ofNat n) else none

/-- Two segments are known, 64 and 84. -/
def IlinkConfig.sample : IlinkConfig := fun id =>
  if id = 64 then some ⟨"10.0.0.64"⟩ else if id = 84 then some ⟨"10.0.0.84"⟩ else none

def IlinkSettings.sample (marketSegmentIds : List String) : IlinkSettings :=
  { firmId := "FIRM", port := 9000, location := "NY", marketSegmentIds := marketSegmentIds }

theorem one_segment_served :
    Promised Unit Unit IlinkConfig.sample [64] ["A", "B"]
      (createOrderEntry uint16FromChars (IlinkSettings.sample ["64"]) IlinkConfig.sample ["A", "B"]
        0) := by
  have hids : (IlinkSettings.sample ["64"]).marketSegmentIds.map uint16FromChars =
      [(64 : UInt16)].map some := by
    decide +kernel
  refine (segments_served_iff [64] 0 hids (by decide) (by decide) (by decide)).2 ⟨?_, ?_⟩
  · intro _ a ha b hb
    rw [List.mem_singleton.1 ha, List.mem_singleton.1 hb]
  · rintro ⟨id, hid, hwide⟩
    rw [List.mem_singleton.1 hid] at hwide
    exact absurd hwide (by decide)

/-- Of two segments the second has no stream, and 320 is taken for 64. -/
theorem second_segment_not_served :
    ¬ Promised Unit Unit IlinkConfig.sample [64, 84] ["A"]
        (createOrderEntry uint16FromChars (IlinkSettings.sample ["64", "84"]) IlinkConfig.sample
          ["A"] 0) ∧
      ¬ Promised Unit Unit IlinkConfig.sample [320] ["A"]
        (createOrderEntry uint16FromChars (IlinkSettings.sample ["320"]) IlinkConfig.sample
          ["A"] 0) := by
  constructor
  · intro h
    have hids : (IlinkSettings.sample ["64", "84"]).marketSegmentIds.map uint16FromChars =
        [(64 : UInt16), 84].map some := by
      decide +kernel
    have hconf : ∀ id ∈ [(64 : UInt16), 84], Configured IlinkConfig.sample id := by
      intro id hid
      simp only [List.mem_cons, List.not_mem_nil, or_false] at hid
      obtain rfl | rfl := hid
      · exact ⟨by decide, by decide⟩
      · exact ⟨by decide, by decide⟩
    have hknown := fun id hid => (hconf id hid).2
    obtain ⟨c, hc, hserves⟩ := h.streams hconf
    obtain ⟨c', hc', hentry⟩ := createOrderEntry_entryOf ["A"] hids (by decide) 0 hknown
    obtain rfl : c = c' := Except.ok.inj (hc.symm.trans hc')
    have heq : (84 : UInt16) = 64 :=
      eq_first_of_serves hentry (by decide) hserves List.mem_cons_self (by decide)
    cases heq
  · intro h
    obtain ⟨failure, hfail⟩ := h.refuses ⟨320, by decide, by decide⟩
    have hids : (IlinkSettings.sample ["320"]).marketSegmentIds.map uint16FromChars =
        [(320 : UInt16)].map some := by
      decide +kernel
    have hknown : ∀ id ∈ [(320 : UInt16)], IlinkConfig.sample id.toUInt8 ≠ none :=
      List.forall_mem_singleton.2 (by decide)
    obtain ⟨c, hc, -⟩ := createOrderEntry_entryOf ["A"] hids (by decide) 0 hknown
    cases hc.symm.trans hfail

end Controller
end RoqCme.Gateway
