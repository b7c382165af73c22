import RoqCme.Gateway.OrderEntry
import RoqCme.MarketData.OrderBooks
import Mathlib.Tactic.Linarith
import Mathlib.Tactic.FieldSimp

/-! The price scales of market data and order entry. Market data multiplies by the display
factor of the security; order entry does not, in neither direction. -/
namespace RoqCme.Gateway
open RoqCme.Mdp RoqCme.Ilink RoqCme.MarketData RoqCme.Tools
variable {Qp Qo : Type}

theorem truncate_half (m : Int) :
    truncate ((m : ℚ) + 1 / 2) = if 0 ≤ m then m else m + 1 := by
  unfold truncate
  by_cases h : 0 ≤ m
  · have hm : (0 : ℚ) ≤ m := by exact_mod_cast h
    rw [if_pos h, if_neg (by linarith), Int.floor_eq_iff]
    constructor
    · linarith
    · linarith
  · have hm : (m : ℚ) ≤ -1 := by
      have hle : m ≤ -1 := by omega
      exact_mod_cast hle
    have hfloor : ⌊-((m : ℚ) + 1 / 2)⌋ = -m - 1 := by
      rw [Int.floor_eq_iff]
      push_cast
      constructor
      · linarith
      · linarith
    rw [if_neg h, if_pos (by linarith), hfloor]
    omega

/-- A price on the scale of the exchange is sent as it is when it is not negative. -/
theorem setPrice_mantissa (m : Int) :
    setPrice (some ((m : ℚ) / 1000000000)) = if 0 ≤ m then m else m + 1 := by
  have hx : (m : ℚ) / 1000000000 * 1000000000 = m := by
    field_simp
  rw [setPrice, hx, truncate_half]

namespace OrderEntry

/-- What is known of a new order that has been sent. -/
theorem mem_sent_newOrderSingle (env : OrderEnv) (sd : SecurityDefinitions Qp Qo) (e : OrderEntry)
    (createOrder : CreateOrder) (order : Order) (requestId : String) (value : NewOrderSingle)
    (h : .newOrderSingle value ∈ (e.sendNewOrderSingle env sd createOrder order requestId).sent) :
    ∃ security, sd.findSecurityId e.marketSegmentId order.symbol = some value.securityId ∧
      sd.getSecurity value.securityId = some security ∧
      createOrder.exchange = security.exchange ∧ value.price = createOrder.price := by
  unfold sendNewOrderSingle at h
  split at h
  · cases h
  · next securityId hfind =>
    split at h
    · cases h
    · next security hget =>
      split at h
      · cases h
      · next hex =>
        split at h
        · cases h
        · split at h
          · cases h
          · simp only [sendOrder, partyDetailsListReqId, if_true, sendPartyDetailsDefinitionRequest,
              List.singleton_append, List.mem_cons, reduceCtorEq, Outgoing.newOrderSingle.injEq,
              List.not_mem_nil, or_false, false_or] at h
            subst h
            exact ⟨security, hfind, hget, not_not.1 hex, rfl⟩

theorem mem_sent_orderCancelReplaceRequest (env : OrderEnv) (sd : SecurityDefinitions Qp Qo)
    (e : OrderEntry) (modifyOrder : ModifyOrder) (order : Order)
    (value : OrderCancelReplaceRequest)
    (h : .orderCancelReplaceRequest value ∈
      (e.sendOrderCancelReplaceRequest env sd modifyOrder order).sent) :
    sd.findSecurityId e.marketSegmentId order.symbol = some value.securityId ∧
      value.price = modifyOrder.price := by
  unfold sendOrderCancelReplaceRequest at h
  split at h
  · cases h
  · next securityId hfind =>
    split at h
    · cases h
    · simp only [sendOrder, partyDetailsListReqId, if_true, sendPartyDetailsDefinitionRequest,
        List.singleton_append, List.mem_cons, reduceCtorEq,
        Outgoing.orderCancelReplaceRequest.injEq, List.not_mem_nil, or_false, false_or] at h
      subst h
      exact ⟨hfind, rfl⟩

/-- A well-formed request for a known symbol is sent. -/
theorem sendNewOrderSingle_sends (env : OrderEnv) (sd : SecurityDefinitions Qp Qo) (e : OrderEntry)
    (order : Order) (requestId : String) (securityId : Int) (security : Security Qp Qo)
    (hfind : sd.findSecurityId e.marketSegmentId order.symbol = some securityId)
    (hget : sd.getSecurity securityId = some security) (price : Double) :
    ∃ value, .newOrderSingle value ∈ (e.sendNewOrderSingle env sd
        ⟨security.exchange, .buy, .limit, .gfd, [], some 1, price, none⟩ order requestId).sent ∧
      value.price = price := by
  have hquantity : getQuantity env (some 1) = .ok 1 := by
    have hcast := env.safeCast_int 1 (by omega) (by omega)
    simp only [Int.cast_one] at hcast
    simp only [getQuantity, hcast]
    rfl
  simp only [sendNewOrderSingle, hfind, hget, hquantity, mapExecutionInstructions, List.all_nil,
    if_true, ne_eq, not_true_eq_false, if_false, sendOrder, partyDetailsListReqId,
    sendPartyDetailsDefinitionRequest, List.singleton_append, List.mem_cons, reduceCtorEq,
    Outgoing.newOrderSingle.injEq, List.not_mem_nil, or_false, false_or]
  exact ⟨_, rfl, rfl⟩

end OrderEntry

/-- The prices told to clients in answer to an execution report. -/
def Dispatched.prices : Dispatched → List Double
  | .response value _ _ => [value.price]
  | .responseWithUpdate value update => [value.price, update.price]
  | .orderUpdate value => [value.price]
  | .tradeUpdate value => value.fills.map Fill.price

/-- A published price, sent back in an order, reaches the exchange as the price it came from,
and a report at that price is told to clients as it was published. -/
structure OneScale (env : OrderEnv) (sd : SecurityDefinitions Qp Qo) (e : OrderEntry)
    (securityId : Int) (security : Security Qp Qo) (m : Int) : Prop where
  create : ∀ item : Book46.Entry, item.mDEntryPx = some m →
    ∀ createOrder order requestId, order.symbol = security.symbol →
      createOrder.price = (mbpUpdate item security).price →
      ∀ value, .newOrderSingle value ∈
        (e.sendNewOrderSingle env sd createOrder order requestId).sent → value.encode.price = m
  modify : ∀ item : Book46.Entry, item.mDEntryPx = some m →
    ∀ modifyOrder order, order.symbol = security.symbol →
      modifyOrder.price = (mbpUpdate item security).price →
      ∀ value, .orderCancelReplaceRequest value ∈
        (e.sendOrderCancelReplaceRequest env sd modifyOrder order).sent → value.encode.price = m
  report : ∀ item : Book46.Entry, item.mDEntryPx = some m →
    ∀ report : ExecutionReport, report.securityID = some securityId → report.price = some m →
      (∀ fill ∈ report.noFills, fill.fillPx = m) →
      ∀ d ∈ onExecutionReport sd report, ∀ price ∈ d.prices,
        price = (mbpUpdate item security).price

/-- Reports are told at the price of the exchange. -/
theorem onExecutionReport_prices (sd : SecurityDefinitions Qp Qo) (report : ExecutionReport)
    (m : Int) (hp : report.price = some m) (hfills : ∀ fill ∈ report.noFills, fill.fillPx = m) :
    ∀ d ∈ onExecutionReport sd report, ∀ price ∈ d.prices,
      price = some ((m : ℚ) / 1000000000) := by
  have hfill : ∀ price ∈ (report.noFills.map (fillFromReport report)).map Fill.price,
      price = some ((m : ℚ) / 1000000000) := by
    intro price hm
    rw [List.map_map] at hm
    obtain ⟨fill, hf, rfl⟩ := List.mem_map.1 hm
    simp only [Function.comp, fillFromReport, hfills fill hf, getDouble]
  intro d hd price hprice
  unfold onExecutionReport at hd
  simp only at hd
  split at hd
  · cases hd
  · split at hd
    · cases hd
    · next security _ =>
      have hupdate : (orderUpdateFromExecutionReport report security
          (toString (report.orderID.getD 0))).price = some ((m : ℚ) / 1000000000) := by
        simp only [orderUpdateFromExecutionReport, hp, getDouble]
      split at hd
      · rw [List.mem_singleton.1 hd] at hprice
        rw [List.mem_singleton.1 hprice]
        exact hupdate
      · rw [List.mem_singleton.1 hd] at hprice
        simp only [Dispatched.prices, List.mem_cons, List.not_mem_nil, or_false] at hprice
        obtain rfl | rfl := hprice
        · exact hupdate
        · exact hupdate
      · rw [List.mem_singleton.1 hd] at hprice
        simp only [Dispatched.prices, List.mem_cons, List.not_mem_nil, or_false] at hprice
        obtain rfl | rfl := hprice
        · exact hupdate
        · exact hupdate
      · rw [List.mem_singleton.1 hd] at hprice
        rw [List.mem_singleton.1 hprice]
        exact hupdate
      · cases List.mem_cons.1 hd with
        | inl hd =>
          rw [hd] at hprice
          rw [List.mem_singleton.1 hprice]
          exact hupdate
        | inr hd =>
          split at hd
          · cases hd
          · rw [List.mem_singleton.1 hd] at hprice
            exact hfill price hprice

theorem mbpUpdate_price (item : Book46.Entry) (security : Security Qp Qo) {m : Int} {f : ℚ}
    (hi : item.mDEntryPx = some m) (hf : security.displayFactor = some f) :
    (mbpUpdate item security).price = some ((m : ℚ) / 1000000000 * f) := by
  simp only [mbpUpdate, hi, hf, priceNull9, price9, Option.bind_some, Double.mul]

/-- The two scales agree on a price exactly when it is zero, or positive and the display factor
is one: order entry never scales, and a negative price is rounded towards zero. -/
theorem order_entry_on_market_data_scale_iff (env : OrderEnv) (sd : SecurityDefinitions Qp Qo)
    (e : OrderEntry) (securityId : Int) (security : Security Qp Qo) (f : ℚ) (m : Int)
    (hfind : sd.findSecurityId e.marketSegmentId security.symbol = some securityId)
    (hget : sd.getSecurity securityId = some security) (hf : security.displayFactor = some f) :
    OneScale env sd e securityId security m ↔ m = 0 ∨ f = 1 ∧ 0 < m := by
  let item : Book46.Entry := ⟨some m, none, securityId, 0, none, none, .new, .bid⟩
  constructor
  · intro h
    -- a status report tells the price of the exchange where the scaled one is expected
    have hreport := h.report item rfl
      ⟨.status532, some 1, some securityId, 0, "", "", "", .buy, .limit, .day, none, .new, 0, some m,
        none, none, none, none, none, none, []⟩ rfl rfl (fun fill hm => by cases hm)
    rw [mbpUpdate_price item security rfl hf] at hreport
    have hprice := hreport _ (by
      simp only [onExecutionReport, Option.getD_some, one_ne_zero, if_false, hget]
      exact List.mem_singleton_self _) _ (List.mem_singleton_self _)
    simp only [orderUpdateFromExecutionReport, getDouble, Option.some.injEq] at hprice
    by_cases hm : m = 0
    · exact Or.inl hm
    · have hmq : (m : ℚ) ≠ 0 := by exact_mod_cast hm
      have hf1 : f = 1 := by
        field_simp at hprice
        linarith
      right
      refine ⟨hf1, ?_⟩
      obtain ⟨value, hsent, hvalue⟩ := e.sendNewOrderSingle_sends env sd
        ⟨security.symbol, .buy, .limit, .gfd, 0, 0, ""⟩ "" securityId security hfind hget
        (some ((m : ℚ) / 1000000000))
      have hmant : setPrice value.price = m := h.create item rfl _ _ _ rfl (by
        rw [mbpUpdate_price item security rfl hf, hf1, mul_one]) value hsent
      rw [hvalue, setPrice_mantissa] at hmant
      split at hmant
      · omega
      · omega
  · intro h
    have hscale : some ((m : ℚ) / 1000000000 * f) = some ((m : ℚ) / 1000000000) := by
      obtain rfl | ⟨rfl, -⟩ := h
      · simp
      · rw [mul_one]
    have hmant : setPrice (some ((m : ℚ) / 1000000000)) = m := by
      rw [setPrice_mantissa, if_pos]
      omega
    refine ⟨?_, ?_, ?_⟩
    · intro item hi createOrder order requestId _ hp value hsent
      obtain ⟨_, _, _, _, hvalue⟩ := e.mem_sent_newOrderSingle env sd createOrder order requestId
        value hsent
      rw [mbpUpdate_price item security hi hf, hscale] at hp
      rw [NewOrderSingle.encode, hvalue, hp]
      exact hmant
    · intro item hi modifyOrder order _ hp value hsent
      obtain ⟨_, hvalue⟩ := e.mem_sent_orderCancelReplaceRequest env sd modifyOrder order value hsent
      rw [mbpUpdate_price item security hi hf, hscale] at hp
      rw [OrderCancelReplaceRequest.encode, hvalue, hp]
      exact hmant
    · intro item hi report _ hp hfills d hd price hprice
      rw [mbpUpdate_price item security hi hf, hscale]
      exact onExecutionReport_prices sd report m hp hfills d hd price hprice

/-- A future quoted in its own units at 5000. -/
theorem order_entry_on_market_data_scale_unit_factor :
    let sd := SecurityDefinitions.load (fun _ => false) () () [SecDef.sample 7 "ESZ5"]
    OneScale (OrderEnv.exact 0) sd ⟨64, "ACC", "FIRM", "NY", true, 0⟩ 7
      (newSecurity () () "CME" "ESZ5" (some 1) false) 5000000000000 :=
  (order_entry_on_market_data_scale_iff (OrderEnv.exact 0) _ _ 7
    (newSecurity () () "CME" "ESZ5" (some 1) false) 1 5000000000000 (by decide +kernel)
    (by decide +kernel) rfl).2 (Or.inr ⟨rfl, by decide⟩)

/-- With a display factor of 1/100 the published price 50 is sent back as 50 where the exchange
quotes 5000, and a report at 5000 is told as 5000 where 50 was published. -/
theorem order_entry_off_market_data_scale :
    let item : SecDef := { SecDef.sample 7 "GCZ5" with displayFactor := some (1 / 100) }
    let sd := SecurityDefinitions.load (fun _ => false) () () [item]
    ¬ OneScale (OrderEnv.exact 0) sd ⟨64, "ACC", "FIRM", "NY", true, 0⟩ 7
      (newSecurity () () "CME" "GCZ5" (some (1 / 100)) false) 5000000000000 := by
  intro item sd h
  have hsent : .newOrderSingle ⟨some 50, 1, 7, .buy, 2, "ACC", "1", 0, 0x0101000000000001, 0, none,
      "NY", .limit, .day, 0⟩ ∈ (OrderEntry.sendNewOrderSingle (OrderEnv.exact 0) sd
        ⟨64, "ACC", "FIRM", "NY", true, 0⟩ ⟨"CME", .buy, .limit, .gfd, [], some 1, some 50, none⟩
        ⟨"GCZ5", .buy, .limit, .gfd, 1, 1, ""⟩ "1").sent := by
    decide +kernel
  have hprice := h.create ⟨some 5000000000000, none, 7, 1, none, none, .new, .bid⟩ rfl
    ⟨"CME", .buy, .limit, .gfd, [], some 1, some 50, none⟩ ⟨"GCZ5", .buy, .limit, .gfd, 1, 1, ""⟩ "1"
    rfl (by decide +kernel) _ hsent
  revert hprice
  decide +kernel

end RoqCme.Gateway
