import RoqCme.MarketData.BookReplay

/-! Order updates after lost packets. A reset lets a channel continue behind a gap; a security of
the channel learns of it from a report number, which template 47 does not carry. -/
namespace RoqCme.MarketData
open RoqCme.Lib RoqCme.Mdp RoqCme.Tools
variable {β Qp Qo : Type}

/-- A packet of a channel is parsed, or something is delivered. -/
inductive Happening where
  | packet (channelId sequenceNumber : Nat)
  | delivery (d : Delivery)
  deriving DecidableEq, Repr

def Happening.delivered : Happening → Option Delivery
  | .packet _ _ => none
  | .delivery d => some d

def Setup.handedHappenings (S : Setup β Qp Qo) (channelId : Nat) (x : Handed (List UInt8)) :
    List Happening :=
  let deliveries := (S.handed channelId x).map .delivery
  match x with
  | .parse _ payload =>
    match Frame.parse payload with
    | some frame => .packet channelId frame.sequenceNumber :: deliveries
    | none => deliveries
  | .reset => deliveries

/-- What a packet leads to, with the packets parsed in between. -/
def Setup.happenings (S : Setup β Qp Qo) (m : Manager β Qp Qo) (packet : Packet) :
    List Happening :=
  match packet.connectionType, m.channels packet.channelId with
  | .incremental, some item =>
    (S.arbitrate packet item.channel).2.flatMap (S.handedHappenings packet.channelId)
  | _, _ => (S.deliveries m packet).map .delivery

def Setup.runHappenings (S : Setup β Qp Qo) : List Packet → Manager β Qp Qo → List Happening
  | [], _ => []
  | packet :: packets, m =>
    S.happenings m packet ++ S.runHappenings packets (S.dispatch m packet)

theorem map_delivery_delivered (deliveries : List Delivery) :
    (deliveries.map Happening.delivery).filterMap Happening.delivered = deliveries := by
  induction deliveries with
  | nil => rfl
  | cons d deliveries ih => simp [Happening.delivered, ih]

theorem handedHappenings_delivered (S : Setup β Qp Qo) (channelId : Nat)
    (xs : List (Handed (List UInt8))) :
    (xs.flatMap (S.handedHappenings channelId)).filterMap Happening.delivered =
      xs.flatMap (S.handed channelId) := by
  induction xs with
  | nil => rfl
  | cons x xs ih =>
    have hx : (S.handedHappenings channelId x).filterMap Happening.delivered =
        S.handed channelId x := by
      have hmap := map_delivery_delivered (S.handed channelId x)
      unfold Setup.handedHappenings
      simp only
      split
      · split
        · rw [List.filterMap_cons, Happening.delivered]
          exact hmap
        · exact hmap
      · exact hmap
    rw [List.flatMap_cons, List.filterMap_append, hx, ih, List.flatMap_cons]

/-- The deliveries among the happenings of a run are the deliveries of the run. -/
theorem runHappenings_delivered (S : Setup β Qp Qo) (packets : List Packet)
    (m : Manager β Qp Qo) :
    (S.runHappenings packets m).filterMap Happening.delivered = S.runDeliveries packets m := by
  induction packets generalizing m with
  | nil => rfl
  | cons packet packets ih =>
    rw [Setup.runHappenings, List.filterMap_append, ih, Setup.runDeliveries]
    congr 1
    unfold Setup.happenings
    split
    · next item ht hm =>
      rw [handedHappenings_delivered]
      simp only [Setup.deliveries, hm, Setup.packetDeliveries, ht]
    · exact map_delivery_delivered _

/-- The security was put into recovery, or a snapshot was submitted for it. -/
def Record.restores (r : Record) : Bool :=
  r.effects.any (fun e => e.mboSubmission.any Prod.fst) ||
    r.effects.contains (.clear .mbo) &&
      r.effects.any fun e => match e with
        | .resubscribe .mbo n => n != 0
        | _ => false

/-- A run seen from one security and one channel: the last packet parsed on the channel, whether
the channel was reset since, and whether packets were skipped that the security does not know of. -/
structure GapWatch (Qp Qo : Type) where
  feeds : Feeds Qp Qo
  last : Option Nat := none
  wasReset : Bool := false
  missed : Bool := false

namespace GapWatch
variable (channelId : Nat) (securityId : Int)

def parsed (w : GapWatch Qp Qo) (n : Nat) : GapWatch Qp Qo :=
  { w with
    last := some n, wasReset := false
    missed := w.missed || (w.wasReset && w.last.any fun last => decide (last + 1 < n)) }

def delivered (env : Env Qp Qo) (w : GapWatch Qp Qo) (d : Delivery) : GapWatch Qp Qo :=
  { w with
    feeds := w.feeds.step env d
    wasReset := w.wasReset || decide (d = .sequenceReset channelId)
    missed := w.missed && !(w.feeds.recordsOf env d securityId).any Record.restores }

def step (env : Env Qp Qo) (w : GapWatch Qp Qo) : Happening → GapWatch Qp Qo
  | .packet c n => if c = channelId then w.parsed n else w
  | .delivery d => w.delivered channelId securityId env d

/-- The template 47 messages of the channel are not forwarded over what was missed: all they
submit are snapshots. -/
def NotForwarded (env : Env Qp Qo) (w : GapWatch Qp Qo) : Happening → Prop
  | .delivery (.incremental c streamId frame (.orderBook47 value)) =>
    c = channelId → w.missed = true → ∀ sub ∈ w.feeds.submits47 env securityId
      (.incremental c streamId frame (.orderBook47 value)), sub.1 = true
  | _ => True

/-- The message completes an event with an entry of the security. -/
def Completes (w : GapWatch Qp Qo) (value : OrderBook47) : Prop :=
  value.matchEventIndicator ≠ 0 ∧
    (securityId ∈ (w.feeds.caches channelId).securityIds47 ∨ entriesFor securityId value ≠ [])

/-- An event of the security that completes after a skip finds it without a report number. -/
def NoReportYet (env : Env Qp Qo) (w : GapWatch Qp Qo) : Happening → Prop
  | .delivery (.incremental c _ _ (.orderBook47 value)) =>
    env.options.enableMarketByOrder = true → c = channelId → w.missed = true →
      w.Completes channelId securityId value →
      ∀ s ∈ w.feeds.shared.securityDefinitions.getSecurity securityId, s.rptSeq = 0
  | _ => True

/-- Without the option, or for a security that is not known, template 47 submits nothing. -/
theorem submits47_nil (env : Env Qp Qo) (f : Feeds Qp Qo) (c streamId : Nat) (frame : Frame)
    (value : OrderBook47) (ht : (f.caches c).Tidy)
    (h : env.options.enableMarketByOrder = false ∨
      f.shared.securityDefinitions.getSecurity securityId = none) :
    f.submits47 env securityId (.incremental c streamId frame (.orderBook47 value)) = [] := by
  simp only [Feeds.submits47, Feeds.recordsOf, Feeds.step, Incremental.onMessage, react,
    definitionsAfter]
  cases he : env.options.enableMarketByOrder with
  | false => simp [orderBook47, he, performAll, Shared.view, mboSubmissions]
  | true =>
    have hs : f.shared.securityDefinitions.getSecurity securityId = none := by
      rw [he] at h
      exact h.resolve_left (by decide)
    rw [orderBook47_eq he _ ht.orders]
    by_cases h0 : value.matchEventIndicator = 0
    · simp [h0, performAll, Shared.view, mboSubmissions]
    · have hnodup := extend47_nodup f.shared.securityDefinitions.getSecurity ht.nodup value
      simp only [h0, if_false]
      rw [view_performAll_distinct env _ _ _ (hnodup.filter _), if_neg]
      · simp [Shared.view, mboSubmissions]
      · intro hm
        have hsome := (List.mem_filter.1 hm).2
        rw [hs] at hsome
        cases hsome

/-- The event is submitted as a snapshot exactly when it finds no report number. -/
theorem notForwarded_iff (env : Env Qp Qo) {w : GapWatch Qp Qo}
    (ht : ∀ c, (w.feeds.caches c).Tidy) (e : Happening) :
    w.NotForwarded channelId securityId env e ↔ w.NoReportYet channelId securityId env e := by
  by_cases h47 : ∃ c streamId frame value,
      e = .delivery (.incremental c streamId frame (.orderBook47 value))
  · obtain ⟨c, streamId, frame, value, rfl⟩ := h47
    simp only [NotForwarded, NoReportYet]
    cases he : env.options.enableMarketByOrder with
    | false => simp [submits47_nil securityId env w.feeds c streamId frame value (ht c) (Or.inl he)]
    | true =>
      cases hs : w.feeds.shared.securityDefinitions.getSecurity securityId with
      | none =>
        simp [submits47_nil securityId env w.feeds c streamId frame value (ht c) (Or.inr hs)]
      | some s =>
        have hsub := submits47_eq env he w.feeds c streamId frame value (ht c) securityId s hs
        have hlisted := mem_extend47 hs (w.feeds.caches c) value
        constructor
        · intro h _ hc hmissed hcompletes t hmem
          cases hmem
          subst hc
          have hin : value.matchEventIndicator ≠ 0 ∧ securityId ∈ ((w.feeds.caches c).extend47
              w.feeds.shared.securityDefinitions.getSecurity value).securityIds47 :=
            ⟨hcompletes.1, hlisted.2 hcompletes.2⟩
          have hall := h rfl hmissed
          rw [hsub, if_pos hin] at hall
          simpa using hall
        · intro h hc hmissed sub hmem
          subst hc
          rw [hsub] at hmem
          split at hmem
          · next hin =>
            rw [List.mem_singleton.1 hmem]
            simpa using h rfl rfl hmissed ⟨hin.1, hlisted.1 hin.2⟩ s rfl
          · cases hmem
  · have hleft : w.NotForwarded channelId securityId env e := by
      unfold NotForwarded
      split
      · exact absurd ⟨_, _, _, _, rfl⟩ h47
      · trivial
    have hright : w.NoReportYet channelId securityId env e := by
      unfold NoReportYet
      split
      · exact absurd ⟨_, _, _, _, rfl⟩ h47
      · trivial
    exact iff_of_true hleft hright

theorem step_tidy (env : Env Qp Qo) {w : GapWatch Qp Qo}
    (ht : ∀ c, (w.feeds.caches c).Tidy) (e : Happening) :
    ∀ c, ((w.step channelId securityId env e).feeds.caches c).Tidy := by
  cases e with
  | packet c n =>
    simp only [step]
    split
    · exact ht
    · exact ht
  | delivery d => exact MarketData.step_tidy env w.feeds d ht

end GapWatch

/-- After a reset that skips packets no order update of the channel is forwarded to a security
before it is put into recovery or gets a snapshot, exactly when every event of the security that
completes in between finds it without a report number. -/
theorem not_forwarded_over_lost_packets_iff (S : Setup β Qp Qo) (channelIds : List Nat) (b : β)
    (items : List SecDef) (packets : List Packet) (channelId : Nat) (securityId : Int) :
    let happenings := S.runHappenings packets (S.start channelIds b items)
    let start : GapWatch Qp Qo := { feeds := (S.start channelIds b items).feeds }
    Along (GapWatch.step channelId securityId S.env)
        (GapWatch.NotForwarded channelId securityId S.env) happenings start ↔
      Along (GapWatch.step channelId securityId S.env)
        (GapWatch.NoReportYet channelId securityId S.env) happenings start := by
  intro happenings start
  refine along_congr (fun w => ∀ c, (w.feeds.caches c).Tidy) ?_ ?_ happenings start
    (start_tidy S channelIds b items)
  · intro w e ht
    exact GapWatch.step_tidy channelId securityId S.env ht e
  · intro w e ht
    exact GapWatch.notForwarded_iff channelId securityId S.env ht e

/-- Template 47 on the wire, for one new bid. -/
def newOrderBody (orderId : Nat) : List UInt8 :=
  messageHeader 62 11 47 ++ toLittleEndian 8 100 ++ [1, 0, 0] ++ toLittleEndian 2 40 ++ [1] ++
    toLittleEndian 8 orderId ++ toLittleEndian 8 1 ++ toLittleEndian 8 5000000000000 ++
    toLittleEndian 4 5 ++ toLittleEndian 4 7 ++ [0, 48] ++ toLittleEndian 6 0

/-- Template 50 with the first report of security 7. -/
def firstReportBody : List UInt8 :=
  messageHeader 56 11 50 ++ toLittleEndian 11 0 ++ toLittleEndian 2 32 ++ [1] ++
    toLittleEndian 24 0 ++ toLittleEndian 4 7 ++ toLittleEndian 4 1

/-- Packet 1 brings report 1 of security 7, packet 2 an order. Packet 4 waits for packet 3 in the
only slot and packet 5 finds the buffer full; after the reset packet 6 brings another order, which
is forwarded as an incremental update: nothing tells the security that packets are missing. -/
theorem order_forwarded_over_lost_packets :
    let S := { Setup.ofBodies { enableMarketByOrder := true }
        [(firstReportBody, [.limitsBanding50 [⟨7, 1⟩]]), (newOrderBody 11, [newOrder47 11]),
          (newOrderBody 12, [newOrder47 12]), (newOrderBody 13, [newOrder47 13])] with
      buffer := KeyedBuffer.slots (List UInt8) 1 }
    let packet := fun n body => (⟨310, .incremental, .primary, frameHeader n ++ body⟩ : Packet)
    let packets := [packet 1 firstReportBody, packet 2 (newOrderBody 11), packet 4 (newOrderBody 12),
      packet 5 (newOrderBody 12), packet 6 (newOrderBody 13)]
    let start := S.start [310] [] [SecDef.sample 7 "ESZ5"]
    let before : List Happening := [.packet 310 1, .delivery (.incremental 310 1 ⟨1, 0⟩
        (.limitsBanding50 [⟨7, 1⟩])), .packet 310 2,
      .delivery (.incremental 310 1 ⟨2, 0⟩ (newOrder47 11)), .delivery (.sequenceReset 310),
      .packet 310 6]
    let d := Delivery.incremental 310 1 ⟨6, 0⟩ (newOrder47 13)
    let w := before.foldl (GapWatch.step 310 7 S.env) { feeds := start.feeds }
    S.runHappenings packets start = before ++ [.delivery d] ∧ w.missed = true ∧
      (w.feeds.submits47 S.env 7 d).map Prod.fst = [false] := by
  decide +kernel

end RoqCme.MarketData
