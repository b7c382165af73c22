import Mathlib.Data.List.DropRight
import Mathlib.Data.List.Induction
import RoqCme.MarketData.BookReplay

/-! Events of template 47 over the messages of a channel, from either feed. What is submitted at the
end of an event are the entries of all its messages, taken apart by security. -/
namespace RoqCme.MarketData
open RoqCme.Mdp RoqCme.Tools
variable {Qp Qo : Type}

/-- The delivery ends the event of a channel: the last message of the event, or a sequence reset. -/
def endsEvent (channelId : Nat) : Delivery → Bool
  | .incremental c _ _ (.orderBook47 value) => c = channelId ∧ value.matchEventIndicator ≠ 0
  | .sequenceReset c => c = channelId
  | _ => false

/-- The deliveries up to the end of the last event of a channel. -/
def untilLastEvent (channelId : Nat) (deliveries : List Delivery) : List Delivery :=
  deliveries.rdropWhile fun d => !endsEvent channelId d

/-- The deliveries since then. -/
def sinceLastEvent (channelId : Nat) (deliveries : List Delivery) : List Delivery :=
  deliveries.rtakeWhile fun d => !endsEvent channelId d

/-- The entries of template 47 on a channel. -/
def delivered47 (channelId : Nat) : Delivery → List OrderBook47.Entry
  | .incremental c _ _ (.orderBook47 value) => if c = channelId then value.noMDEntries else []
  | _ => []

/-- Those of one security, in the order of their arrival. -/
def eventEntries (channelId : Nat) (securityId : Int) (deliveries : List Delivery) :
    List OrderBook47.Entry :=
  (deliveries.flatMap (delivered47 channelId)).filter fun item => item.securityID = securityId

theorem eventEntries_concat (channelId : Nat) (securityId : Int) (deliveries : List Delivery)
    (d : Delivery) :
    eventEntries channelId securityId (deliveries ++ [d]) =
      eventEntries channelId securityId deliveries ++ eventEntries channelId securityId [d] := by
  simp only [eventEntries, List.flatMap_append, List.filter_append]

/-- The entries that the loop skips are not of this security. -/
theorem entriesFor_of_ne_zero {securityId : Int} (h0 : securityId ≠ 0) (value : OrderBook47) :
    entriesFor securityId value =
      value.noMDEntries.filter fun item => item.securityID = securityId := by
  rw [entriesFor, visited47]
  generalize value.noMDEntries = items
  induction items with
  | nil => rfl
  | cons item items ih =>
    by_cases hz : item.securityID = 0
    · have hskip : item.securityID ≠ securityId := fun hid => h0 (hid.symm.trans hz)
      rw [List.dropWhile_cons_of_pos (by simpa using hz), ih,
        List.filter_cons_of_neg (by simpa using hskip)]
    · rw [List.dropWhile_cons_of_neg (by simpa using hz)]

/-- Within an event a delivery adds the entries that it has of the security. -/
theorem entriesOn_of_not_ends {channelId : Nat} {securityId : Int} (h0 : securityId ≠ 0)
    {d : Delivery} (h : endsEvent channelId d = false) (entries : List OrderBook47.Entry) :
    entriesOn securityId channelId entries d =
      entries ++ eventEntries channelId securityId [d] := by
  cases d with
  | incremental c streamId frame message =>
    cases message with
    | orderBook47 value =>
      by_cases hc : c = channelId
      · have hindicator : value.matchEventIndicator = 0 := by
          by_contra hne
          simp [endsEvent, hc, hne] at h
        simp [entriesOn, eventEntries, delivered47, hc, hindicator, entriesFor_of_ne_zero h0]
      · simp [entriesOn, eventEntries, delivered47, hc]
    | _ => simp [entriesOn, eventEntries, delivered47]
  | sequenceReset c =>
    have hc : c ≠ channelId := by
      intro hc
      simp [endsEvent, hc] at h
    simp [entriesOn, eventEntries, delivered47, hc]
  | _ => simp [entriesOn, eventEntries, delivered47]

/-- The end of an event leaves nothing of it in the cache. -/
theorem step_of_ends {env : Env Qp Qo} (he : env.options.enableMarketByOrder = true)
    {f : Feeds Qp Qo} {channelId : Nat} (ht : (f.caches channelId).Tidy) {d : Delivery}
    (h : endsEvent channelId d = true) :
    ((f.step env d).caches channelId).orders47 = [] ∧
      ((f.step env d).caches channelId).securityIds47 = [] := by
  cases d with
  | incremental c streamId frame message =>
    cases message with
    | orderBook47 value =>
      simp only [endsEvent, decide_eq_true_eq] at h
      obtain ⟨rfl, hindicator⟩ := h
      simp only [Feeds.step, Incremental.onMessage, react, Function.update_self,
        orderBook47_eq he _ ht.orders, if_neg hindicator, and_self]
    | _ => cases h
  | sequenceReset c =>
    simp only [endsEvent, decide_eq_true_eq] at h
    subst h
    simp only [Feeds.step, Function.update_self, and_self]
  | _ => cases h

/-- A security that is known at the end of an event stays known. -/
theorem known_since (env : Env Qp Qo) (f : Feeds Qp Qo) (channelId : Nat)
    (deliveries : List Delivery) {securityId : Int} {security : Security Qp Qo}
    (hs : (Feeds.run env (untilLastEvent channelId deliveries)
      f).shared.securityDefinitions.getSecurity securityId = some security) :
    ∃ s, (Feeds.run env deliveries f).shared.securityDefinitions.getSecurity securityId = some s ∧
      SameInstrument security s := by
  have hsplit : untilLastEvent channelId deliveries ++ sinceLastEvent channelId deliveries =
      deliveries := List.rdropWhile_append_rtakeWhile
  have hgrown := run_grown env (sinceLastEvent channelId deliveries)
    (Feeds.run env (untilLastEvent channelId deliveries) f)
  rw [← Feeds.run_append, hsplit] at hgrown
  obtain ⟨s, hs', hsame, -⟩ := hgrown.getSecurity hs
  exact ⟨s, hs', hsame⟩

section Run
variable {env : Env Qp Qo} (he : env.options.enableMarketByOrder = true) (items : List SecDef)
  (channelId : Nat) {securityId : Int} (h0 : securityId ≠ 0)
include he h0

/-- Throughout a run the cache of a channel has the entries that arrived there since the end of the last
event. -/
theorem run_holds47 (deliveries : List Delivery) {security : Security Qp Qo}
    (hs : (Feeds.run env (untilLastEvent channelId deliveries)
      (Feeds.ofSecDefs env items)).shared.securityDefinitions.getSecurity securityId =
        some security) :
    ((Feeds.run env deliveries (Feeds.ofSecDefs env items)).caches channelId).Holds47 securityId
      security (eventEntries channelId securityId (sinceLastEvent channelId deliveries)) := by
  induction deliveries using List.reverseRecOn with
  | nil => exact Cache.holds47_empty securityId security
  | append_singleton deliveries d ih =>
    have htidy := run_tidy env deliveries (Feeds.ofSecDefs env items)
      (fun _ => Cache.tidy_empty) channelId
    have hrun : Feeds.run env (deliveries ++ [d]) (Feeds.ofSecDefs env items) =
        (Feeds.run env deliveries (Feeds.ofSecDefs env items)).step env d := Feeds.run_append ..
    rw [hrun]
    cases hd : endsEvent channelId d with
    | true =>
      have hsince : sinceLastEvent channelId (deliveries ++ [d]) = [] :=
        List.rtakeWhile_concat_neg _ _ _ (by simp [hd])
      obtain ⟨horders, hids⟩ := step_of_ends he htidy hd
      rw [hsince]
      exact ⟨by rw [horders]; rfl, by rw [hids]; simp [eventEntries]⟩
    | false =>
      have huntil : untilLastEvent channelId (deliveries ++ [d]) =
          untilLastEvent channelId deliveries := List.rdropWhile_concat_pos _ _ _ (by simp [hd])
      have hsince : sinceLastEvent channelId (deliveries ++ [d]) =
          sinceLastEvent channelId deliveries ++ [d] :=
        List.rtakeWhile_concat_pos _ _ _ (by simp [hd])
      rw [huntil] at hs
      obtain ⟨s, hknown, hsame⟩ := known_since env _ channelId deliveries hs
      have hstep := (ih hs).step he htidy hknown hsame d
      rw [entriesOn_of_not_ends h0 hd, ← eventEntries_concat, ← hsince] at hstep
      exact hstep

end Run

/-- In every run with market by order, template 47 on a channel, from either feed. A message that does
not end the event submits nothing. One that does submits exactly one update for each known security
(other than 0) with an entry since the end of the event before, with the bids and offers of all these
entries in the order of their arrival. Other securities get none, and nothing of the event is kept. -/
theorem order_events_assembled (env : Env Qp Qo) (he : env.options.enableMarketByOrder = true)
    (items : List SecDef) (deliveries : List Delivery) (channelId streamId : Nat) (frame : Frame)
    (value : OrderBook47) :
    let before := Feeds.run env (untilLastEvent channelId deliveries) (Feeds.ofSecDefs env items)
    let f := Feeds.run env deliveries (Feeds.ofSecDefs env items)
    let d := Delivery.incremental channelId streamId frame (.orderBook47 value)
    (value.matchEventIndicator = 0 → (f.step env d).shared.trace = f.shared.trace) ∧
      (value.matchEventIndicator ≠ 0 →
        (∀ securityId security, securityId ≠ 0 →
          before.shared.securityDefinitions.getSecurity securityId = some security →
          let entries := eventEntries channelId securityId (sinceLastEvent channelId deliveries ++ [d])
          (f.submits47 env securityId d).map Prod.snd =
            if entries = [] then [] else [entries.flatMap (orderActions securityId security)]) ∧
        (∀ securityId, f.shared.securityDefinitions.getSecurity securityId = none →
          f.submits47 env securityId d = []) ∧
        ((f.step env d).caches channelId).orders47 = [] ∧
        ((f.step env d).caches channelId).securityIds47 = []) := by
  intro before f d
  have htidy : (f.caches channelId).Tidy :=
    run_tidy env deliveries _ (fun _ => Cache.tidy_empty) channelId
  constructor
  · intro hindicator
    simp only [d, Feeds.step, Incremental.onMessage, react, orderBook47_eq he _ htidy.orders,
      if_pos hindicator]
    rfl
  · intro hindicator
    have hends : endsEvent channelId d = true := by simp [endsEvent, d, hindicator]
    refine ⟨?_, submits47_of_unknown env he f channelId streamId frame value htidy,
      step_of_ends he htidy hends⟩
    intro securityId security h0 hs entries
    have hholds := run_holds47 he items channelId h0 deliveries hs
    obtain ⟨s, hknown, hsame⟩ := known_since env _ channelId deliveries hs
    have hactions := orderActions_same hsame securityId
    obtain ⟨horders, hlisted⟩ := extend47_entries hknown (by rw [hholds.orders, hactions])
      hholds.listed value
    have hentries : eventEntries channelId securityId (sinceLastEvent channelId deliveries) ++
        entriesFor securityId value = entries := by
      simp only [entries, eventEntries_concat, entriesFor_of_ne_zero h0]
      simp [eventEntries, delivered47, d]
    rw [hentries] at horders hlisted
    rw [submits47_eq env he f channelId streamId frame value htidy securityId s hknown, horders,
      hactions]
    by_cases hnil : entries = []
    · rw [if_pos hnil, if_neg (fun h => hlisted.1 h.2 hnil)]
      rfl
    · rw [if_neg hnil, if_pos ⟨hindicator, hlisted.2 hnil⟩]
      rfl

/-- A new order of a security. -/
def order47Entry (securityID : Int) (orderId : Nat) (type : MDEntryTypeBook) : OrderBook47.Entry :=
  ⟨some orderId, some 1, some 5000000000000, some 5, securityID, .new, type⟩

/-- An event of two messages, one from each feed. Security 9 is not known. -/
theorem order_event_over_two_messages :
    let env := Env.direct { enableMarketByOrder := true }
    let items := [SecDef.sample 7 "ESZ5", SecDef.sample 8 "NQZ5"]
    let first : OrderBook47 :=
      ⟨100, 0, [order47Entry 7 11 .bid, order47Entry 9 12 .bid, order47Entry 8 13 .offer,
        order47Entry 8 14 .impliedBid]⟩
    let last : OrderBook47 := ⟨100, 128, [order47Entry 7 15 .offer]⟩
    let f := Feeds.run env [.incremental 310 1 ⟨1, 0⟩ (.orderBook47 first)]
      (Feeds.ofSecDefs env items)
    let submitted := fun securityId =>
      ((f.submits47 env securityId (.incremental 310 2 ⟨2, 0⟩ (.orderBook47 last))).map Prod.snd).map
        fun orders => orders.map MBOUpdate.orderId
    submitted 7 = [[some 11, some 15]] ∧ submitted 8 = [[some 13]] := by
  intro env items first last f submitted
  obtain ⟨-, hlast⟩ := order_events_assembled env rfl items
    [.incremental 310 1 ⟨1, 0⟩ (.orderBook47 first)] 310 2 ⟨2, 0⟩ last
  obtain ⟨hsubmits, -⟩ := hlast (by decide)
  let ids : List (List MBOUpdate) → List (List (Option Nat)) :=
    List.map fun orders => orders.map MBOUpdate.orderId
  have h7 := hsubmits 7 (newSecurity none none "CME" "ESZ5" (some 1) false) (by decide)
    (by decide +kernel)
  have h8 := hsubmits 8 (newSecurity none none "CME" "NQZ5" (some 1) false) (by decide)
    (by decide +kernel)
  exact ⟨(congrArg ids h7).trans (by decide +kernel), (congrArg ids h8).trans (by decide +kernel)⟩

end RoqCme.MarketData
