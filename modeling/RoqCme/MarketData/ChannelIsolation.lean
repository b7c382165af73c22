import RoqCme.Lib.Unwinding
import RoqCme.MarketData.ForcedSnapshots
import RoqCme.MarketData.Locality
import RoqCme.MarketData.Views

/-! What one channel sees of the others. The sequence, the buffer and the cache of a channel are
its own, and so are its securities; only the pending trade summary is common to all channels. -/
namespace RoqCme.MarketData
open RoqCme.Lib RoqCme.Mdp RoqCme.Tools
variable {Qp Qo : Type} {own : Int → Bool}

/-- The updates of books, trades and statistics. -/
def Effect.update : Effect → Option Published
  | .publish (.referenceData _) | .publish (.marketStatus _ _) => none
  | .publish value => some value
  | _ => none

/-- The updates published for the securities in `own`, in order. -/
def publishedFor (own : Int → Bool) (trace : List Record) : List (Int × Published) :=
  trace.flatMap fun r =>
    if own r.securityId then (r.effects.filterMap Effect.update).map (r.securityId, ·) else []

/-- The same securities in `own`, and the same updates published for them. -/
structure SameView (own : Int → Bool) (s t : Shared Qp Qo) : Prop where
  securities : SecurityDefinitions.Agree (own · = true) s.securityDefinitions t.securityDefinitions
  published : publishedFor own s.trace = publishedFor own t.trace

theorem SameView.symm {s t : Shared Qp Qo} (h : SameView own s t) : SameView own t s :=
  ⟨fun securityId hk => (h.securities securityId hk).symm, h.published.symm⟩

theorem SameView.trans {s t u : Shared Qp Qo} (h : SameView own s t) (h' : SameView own t u) :
    SameView own s u :=
  ⟨fun securityId hk => (h.securities securityId hk).trans (h'.securities securityId hk),
    h.published.trans h'.published⟩

theorem publishedFor_concat (trace : List Record) (r : Record) :
    publishedFor own (trace ++ [r]) = publishedFor own trace ++
      if own r.securityId then (r.effects.filterMap Effect.update).map (r.securityId, ·) else [] := by
  rw [publishedFor, List.flatMap_append, List.flatMap_singleton]
  rfl

/-- An operation that cannot be seen: it is for another security, or it changes nothing and
publishes none of the updates. -/
theorem SameView.of_hidden (s : Shared Qp Qo) (securityId : Int) (site : Site)
    (op : SecurityOp Qp Qo) (h : own securityId = false ∨
      ∀ t, (op t).1 = t ∧ (op t).2.filterMap Effect.update = []) :
    SameView own (s.onSecurity securityId site op) s := by
  cases hs : s.securityDefinitions.securities securityId with
  | none =>
    simp only [Shared.onSecurity, hs]
    exact ⟨fun _ _ => rfl, rfl⟩
  | some t =>
    simp only [Shared.onSecurity, hs]
    refine ⟨?_, ?_⟩
    · intro other hk
      simp only [SecurityDefinitions.setSecurity]
      by_cases he : other = securityId
      · subst he
        rw [Function.update_self, hs]
        cases h with
        | inl h => rw [hk] at h; cases h
        | inr h => rw [(h t).1]
      · rw [Function.update_of_ne he]
    · rw [publishedFor_concat]
      cases h with
      | inl h => simp [h]
      | inr h => simp [(h t).2]

theorem SameView.onSecurity {s t : Shared Qp Qo} (h : SameView own s t) (securityId : Int)
    (site : Site) (op : SecurityOp Qp Qo) :
    SameView own (s.onSecurity securityId site op) (t.onSecurity securityId site op) := by
  cases ho : own securityId with
  | false =>
    have hhidden : ∀ u : Shared Qp Qo, SameView own (u.onSecurity securityId site op) u :=
      fun u => SameView.of_hidden u securityId site op (Or.inl ho)
    exact ((hhidden s).trans h).trans (hhidden t).symm
  | true =>
    have he := h.securities securityId ho
    cases hs : s.securityDefinitions.securities securityId with
    | none =>
      rw [hs] at he
      simp only [Shared.onSecurity, hs, ← he]
      exact h
    | some security =>
      rw [hs] at he
      simp only [Shared.onSecurity, hs, ← he]
      refine ⟨?_, ?_⟩
      · intro other hk
        simp only [SecurityDefinitions.setSecurity]
        by_cases heq : other = securityId
        · rw [heq, Function.update_self, Function.update_self]
        · rw [Function.update_of_ne heq, Function.update_of_ne heq]
          exact h.securities other hk
      · rw [publishedFor_concat, publishedFor_concat, h.published]

theorem SameView.perform {s t : Shared Qp Qo} (h : SameView own s t) (env : Env Qp Qo)
    (ctx : Context) (calls : List Call) :
    SameView own (performAll env ctx calls s) (performAll env ctx calls t) := by
  induction calls generalizing s t with
  | nil => exact h
  | cons call calls ih => exact ih (h.onSecurity call.securityId call.action.site _)

/-- Calls for other securities, and market status, are not seen. -/
theorem SameView.of_performAll (env : Env Qp Qo) (ctx : Context) (calls : List Call)
    (s : Shared Qp Qo) (h : ∀ c ∈ calls, own c.securityId = false ∨
      ∃ status, c.action = .marketStatus status) :
    SameView own (performAll env ctx calls s) s := by
  induction calls generalizing s with
  | nil => exact ⟨fun _ _ => rfl, rfl⟩
  | cons call calls ih =>
    have hrest := ih (call.perform env ctx s) fun c hc => h c (List.mem_cons_of_mem call hc)
    refine hrest.trans (SameView.of_hidden s call.securityId call.action.site _ ?_)
    cases h call (by simp) with
    | inl hc => exact Or.inl hc
    | inr hc =>
      obtain ⟨status, hc⟩ := hc
      rw [hc]
      exact Or.inr fun t => ⟨rfl, rfl⟩

theorem performAll_pending (env : Env Qp Qo) (ctx : Context) (calls : List Call)
    (s : Shared Qp Qo) : (performAll env ctx calls s).pending = s.pending := by
  induction calls generalizing s with
  | nil => rfl
  | cons call calls ih =>
    have hc : (call.perform env ctx s).pending = s.pending := by
      unfold Call.perform Shared.onSecurity
      split
      · rfl
      · rfl
    exact (ih (call.perform env ctx s)).trans hc

/-- What a message defines depends on the security of that id only. -/
theorem definitionsAfter_securities (env : Env Qp Qo) (sd sd' : SecurityDefinitions Qp Qo)
    (message : Message) (securityId : Int)
    (h : sd.securities securityId = sd'.securities securityId) :
    (definitionsAfter env sd message).securities securityId =
      (definitionsAfter env sd' message).securities securityId := by
  cases message with
  | instrumentDefinition value =>
    simp only [definitionsAfter]
    split
    · rw [define_securities_eq, define_securities_eq, h]
    · exact h
  | _ => exact h

theorem definitionsAfter_other (env : Env Qp Qo) (sd : SecurityDefinitions Qp Qo)
    (message : Message) (securityId : Int) (h : securityId ∉ securitiesOf message) :
    (definitionsAfter env sd message).securities securityId = sd.securities securityId := by
  cases message with
  | instrumentDefinition value =>
    have hne : securityId ≠ value.securityID := by
      intro he
      exact h (by simp [securitiesOf, he])
    simp only [definitionsAfter]
    split
    · rw [define_securities_eq, if_neg hne]
    · rfl
  | _ => rfl

theorem SameView.define {s t : Shared Qp Qo} (h : SameView own s t) (env : Env Qp Qo)
    (message : Message) (p q : PendingSummary) (a b : Bool) :
    SameView own
      { s with
        securityDefinitions := definitionsAfter env s.securityDefinitions message
        pending := p, fault := a }
      { t with
        securityDefinitions := definitionsAfter env t.securityDefinitions message
        pending := q, fault := b } := by
  refine ⟨?_, h.published⟩
  intro securityId hk
  exact definitionsAfter_securities env _ _ message securityId (h.securities securityId hk)

/-- A message with another transact time does not see what was pending. -/
theorem PendingSummary.assemble_fresh {p : PendingSummary} {value : TradeSummary}
    (h : value.transactTime ≠ p.transactTime) :
    p.assemble value = PendingSummary.assemble {} value := by
  have hstart : (if value.transactTime = ({} : PendingSummary).transactTime then
      ({} : PendingSummary) else { transactTime := value.transactTime }) =
      { transactTime := value.transactTime } := by
    split
    · next h0 => rw [h0]
    · rfl
  simp only [PendingSummary.assemble, if_neg h, hstart]

/-- The deliveries of the incremental feed of channel `x`. -/
def Delivery.isOf (x : Nat) : Delivery → Bool
  | .incremental channelId _ _ _ | .sequenceReset channelId => decide (channelId = x)
  | _ => false

/-- The incremental feed only: channel `x` names securities in `own`, the others do not. -/
def Delivery.Disjoint (own : Int → Bool) (x : Nat) : Delivery → Prop
  | .incremental channelId _ _ message =>
    ∀ securityId ∈ securitiesOf message, own securityId = decide (channelId = x)
  | .sequenceReset _ => True
  | _ => False

/-- A trade summary finds nothing pending, or what its own side has left there. For channel `x`
it is enough that what it finds has another transact time. -/
def Undisturbed (own : Int → Bool) (x : Nat) (f : Feeds Qp Qo) : Delivery → Prop
  | .incremental channelId _ _ message => ∀ value ∈ tradeSummaryOf message,
    f.shared.pending = {} ∨
      (∃ securityId ∈ f.shared.pending.securityIds, own securityId = decide (channelId = x)) ∨
      channelId = x ∧ value.transactTime ≠ f.shared.pending.transactTime
  | _ => True

instance Undisturbed.decidable (own : Int → Bool) (x : Nat) (f : Feeds Qp Qo) (d : Delivery) :
    Decidable (Undisturbed own x f d) :=
  match d with
  | .incremental channelId _ _ message => inferInstanceAs (Decidable (∀ value ∈ tradeSummaryOf message,
      f.shared.pending = {} ∨
        (∃ securityId ∈ f.shared.pending.securityIds, own securityId = decide (channelId = x)) ∨
        channelId = x ∧ value.transactTime ≠ f.shared.pending.transactTime))
  | .sequenceReset _ | .instrumentDefinition _ _ _ | .mbpRecovery _ _ _ _ | .mbofdRecovery _ _ _ =>
    isTrue trivial

/-- The run with all channels and the run with channel `x` alone. The pending summary is that of
`x` in both, or there is one of another channel in the first and none in the second. -/
structure Isolated (own : Int → Bool) (x : Nat) (f g : Feeds Qp Qo) : Prop where
  view : SameView own f.shared g.shared
  cache : f.caches x = g.caches x
  mine : ∀ securityId ∈ (f.caches x).securityIds47, own securityId = true
  others : ∀ channelId, channelId ≠ x →
    ∀ securityId ∈ (f.caches channelId).securityIds47, own securityId = false
  pending : f.shared.pending = g.shared.pending ∧ f.shared.pending.Within (own · = true) ∨
    g.shared.pending = {} ∧ f.shared.pending.Within (own · = false)

/-- Both runs write the cache of channel `x`. -/
theorem Isolated.write {x : Nat} {f g : Feeds Qp Qo} (h : Isolated own x f g) (cache : Cache)
    (hc : ∀ securityId ∈ cache.securityIds47, own securityId = true) {s t : Shared Qp Qo}
    (hview : SameView own s t)
    (hp : s.pending = t.pending ∧ s.pending.Within (own · = true) ∨
      t.pending = {} ∧ s.pending.Within (own · = false)) :
    Isolated own x ⟨Function.update f.caches x cache, s⟩ ⟨Function.update g.caches x cache, t⟩ where
  view := hview
  cache := by simp only [Function.update_self]
  mine := by
    simp only [Function.update_self]
    exact hc
  others channelId hne := by
    simp only [Function.update_of_ne hne]
    exact h.others channelId hne
  pending := hp

/-- The first run writes the cache of another channel. -/
theorem Isolated.writeOther {x : Nat} {f g : Feeds Qp Qo} (h : Isolated own x f g) {channelId : Nat}
    (hne : channelId ≠ x) (cache : Cache)
    (hc : ∀ securityId ∈ cache.securityIds47, own securityId = false) {s : Shared Qp Qo}
    (hview : SameView own s f.shared)
    (hp : s.pending = g.shared.pending ∧ s.pending.Within (own · = true) ∨
      g.shared.pending = {} ∧ s.pending.Within (own · = false)) :
    Isolated own x ⟨Function.update f.caches channelId cache, s⟩ g where
  view := hview.trans h.view
  cache := by
    simp only [Function.update_of_ne hne.symm]
    exact h.cache
  mine := by
    simp only [Function.update_of_ne hne.symm]
    exact h.mine
  others other hother := by
    by_cases he : other = channelId
    · subst he
      simp only [Function.update_self]
      exact hc
    · simp only [Function.update_of_ne he]
      exact h.others other hother
  pending := hp

/-- A trade summary of channel `x` continues the same pending summary in both runs. -/
theorem Isolated.assemble {x : Nat} {f g : Feeds Qp Qo} (h : Isolated own x f g)
    {value : TradeSummary}
    (hu : f.shared.pending = {} ∨
      (∃ securityId ∈ f.shared.pending.securityIds, own securityId = true) ∨
      value.transactTime ≠ f.shared.pending.transactTime) :
    f.shared.pending.assemble value = g.shared.pending.assemble value ∧
      (value.transactTime = f.shared.pending.transactTime →
        f.shared.pending.Within (own · = true)) := by
  cases h.pending with
  | inl hp => exact ⟨by rw [hp.1], fun _ => hp.2⟩
  | inr hp =>
    obtain ⟨hg, hf⟩ := hp
    rw [hg]
    obtain he | ⟨securityId, hm, ho⟩ | hne := hu
    · rw [he]
      exact ⟨rfl, fun _ => .empty⟩
    · have hfalse : own securityId = false := hf securityId hm
      rw [ho] at hfalse
      cases hfalse
    · exact ⟨PendingSummary.assemble_fresh hne, fun he => absurd he hne⟩

theorem Isolated.mine_message {x : Nat} {f g : Feeds Qp Qo} (h : Isolated own x f g)
    (env : Env Qp Qo) (streamId : Nat) (frame : Frame) (message : Message)
    (hd : (Delivery.incremental x streamId frame message).Disjoint own x)
    (hu : Undisturbed own x f (.incremental x streamId frame message)) :
    Isolated own x (f.step env (.incremental x streamId frame message))
      (g.step env (.incremental x streamId frame message)) := by
  have hk : ∀ securityId ∈ securitiesOf message, own securityId = true := by
    intro securityId hm
    rw [hd securityId hm]
    exact decide_eq_true rfl
  simp only [Feeds.step, Incremental.onMessage]
  cases ht : tradeSummaryOf message with
  | some value =>
    have hfinds : f.shared.pending = {} ∨
        (∃ securityId ∈ f.shared.pending.securityIds, own securityId = true) ∨
        value.transactTime ≠ f.shared.pending.transactTime := by
      obtain hnone | ⟨securityId, hm, ho⟩ | hne := hu value ht
      · exact Or.inl hnone
      · exact Or.inr (Or.inl ⟨securityId, hm, ho.trans (decide_eq_true rfl)⟩)
      · exact Or.inr (Or.inr hne.2)
    obtain ⟨he, hp⟩ := h.assemble hfinds
    have hitems := tradeSummary_securities ht hk
    rw [react_tradeSummary _ _ _ _ ht, react_tradeSummary _ _ _ _ ht, ← h.cache,
      ← dispatchTradeSummary_congr h.view.securities.getSecurity (f.caches x) he hp hitems]
    obtain ⟨hwithin, hpending⟩ := dispatchTradeSummary_within
      f.shared.securityDefinitions.getSecurity h.mine hp hitems
    refine h.write _ hwithin.cache ((h.view.define env message _ _ _ _).perform env _ _) ?_
    rw [performAll_pending, performAll_pending]
    exact Or.inl ⟨rfl, hpending⟩
  | none =>
    rw [react_pending _ f.shared.securityDefinitions _ f.shared.pending ht,
      react_pending _ g.shared.securityDefinitions _ g.shared.pending ht, ← h.cache]
    cases hs : isStatus message with
    | true =>
      cases message with
      | securityStatus30 value =>
        have hcalls : ∀ sd : SecurityDefinitions Qp Qo, ∀ c ∈ (react env.options sd (f.caches x) {}
            (.securityStatus30 value)).calls, own c.securityId = false ∨
            ∃ status, c.action = .marketStatus status := fun sd c hc =>
          Or.inr (securityStatus30_calls sd (f.caches x) {} value c hc)
        refine h.write _ h.mine ?_ ?_
        · refine (SameView.of_performAll env _ _ _ (hcalls _)).trans ?_
          refine SameView.trans ?_ (SameView.of_performAll env _ _ _ (hcalls _)).symm
          exact h.view.define env _ _ _ _ _
        · rw [performAll_pending, performAll_pending]
          exact h.pending
      | _ => cases hs
    | false =>
      rw [← react_congr env.options h.view.securities {} hs ht h.mine hk]
      have hwithin := react_within env.options f.shared.securityDefinitions {} hs ht h.mine hk
      refine h.write _ hwithin.cache ((h.view.define env message _ _ _ _).perform env _ _) ?_
      rw [performAll_pending, performAll_pending]
      exact h.pending

/-- Definitions of securities of other channels. -/
theorem SameView.of_definitions (env : Env Qp Qo) (shared : Shared Qp Qo) {message : Message}
    (hk : ∀ securityId ∈ securitiesOf message, own securityId = false) (p : PendingSummary)
    (b : Bool) :
    SameView own
      { shared with
        securityDefinitions := definitionsAfter env shared.securityDefinitions message
        pending := p, fault := b } shared := by
  refine ⟨?_, rfl⟩
  intro securityId hown
  apply definitionsAfter_other
  intro hm
  rw [hk securityId hm] at hown
  cases hown

/-- Where a trade summary of another channel finds the shared one undisturbed, nothing of this
channel is in it. -/
theorem Isolated.other_pending {x : Nat} {f g : Feeds Qp Qo} (h : Isolated own x f g)
    {channelId : Nat} (hne : channelId ≠ x) {streamId : Nat} {frame : Frame} {message : Message}
    {value : TradeSummary} (ht : tradeSummaryOf message = some value)
    (hu : Undisturbed own x f (.incremental channelId streamId frame message)) :
    g.shared.pending = {} ∧ f.shared.pending.Within (own · = false) := by
  cases h.pending with
  | inr hp => exact hp
  | inl hp =>
    obtain hnone | ⟨securityId, hm, ho⟩ | hx := hu value ht
    · exact ⟨hp.1.symm.trans hnone, by rw [hnone]; exact .empty⟩
    · have htrue : own securityId = true := hp.2 securityId hm
      rw [ho, decide_eq_false hne] at htrue
      cases htrue
    · exact absurd hx.1 hne

theorem Isolated.other_message {x : Nat} {f g : Feeds Qp Qo} (h : Isolated own x f g)
    (env : Env Qp Qo) {channelId : Nat} (hne : channelId ≠ x) (streamId : Nat) (frame : Frame)
    (message : Message)
    (hd : (Delivery.incremental channelId streamId frame message).Disjoint own x)
    (hu : Undisturbed own x f (.incremental channelId streamId frame message)) :
    Isolated own x (f.step env (.incremental channelId streamId frame message)) g := by
  have hk : ∀ securityId ∈ securitiesOf message, own securityId = false := by
    intro securityId hm
    rw [hd securityId hm]
    exact decide_eq_false hne
  have hcache := h.others channelId hne
  have hdefine := fun p b => SameView.of_definitions env f.shared hk p b
  simp only [Feeds.step, Incremental.onMessage]
  cases ht : tradeSummaryOf message with
  | some value =>
    have hempty := h.other_pending hne ht hu
    obtain ⟨hwithin, hpending⟩ := dispatchTradeSummary_within
      f.shared.securityDefinitions.getSecurity hcache (fun _ => hempty.2)
      (tradeSummary_securities ht hk)
    rw [react_tradeSummary _ _ _ _ ht]
    refine h.writeOther hne _ hwithin.cache ?_ ?_
    · refine (SameView.of_performAll env _ _ _ ?_).trans (hdefine _ _)
      intro c hc
      exact Or.inl (hwithin.calls c hc)
    · rw [performAll_pending]
      exact Or.inr ⟨hempty.1, hpending⟩
  | none =>
    rw [react_pending _ _ _ f.shared.pending ht]
    cases hs : isStatus message with
    | true =>
      cases message with
      | securityStatus30 value =>
        refine h.writeOther hne _ hcache ?_ ?_
        · refine (SameView.of_performAll env _ _ _ ?_).trans (hdefine _ _)
          intro c hc
          exact Or.inr (securityStatus30_calls _ _ _ value c hc)
        · rw [performAll_pending]
          exact h.pending
      | _ => cases hs
    | false =>
      have hwithin := react_within env.options f.shared.securityDefinitions {} hs ht hcache hk
      refine h.writeOther hne _ hwithin.cache ?_ ?_
      · refine (SameView.of_performAll env _ _ _ ?_).trans (hdefine _ _)
        intro c hc
        exact Or.inl (hwithin.calls c hc)
      · rw [performAll_pending]
        exact h.pending

/-- An idle cache has no securities. -/
theorem idle_within (b : Bool) : ∀ securityId ∈ ({} : Cache).securityIds47, own securityId = b := by
  intro securityId hm
  cases hm

/-- Deliveries of channel `x` keep the two runs alike, those of other channels leave the view of
`x` alone. -/
theorem Isolated.run (env : Env Qp Qo) {x : Nat} {f g : Feeds Qp Qo} (h : Isolated own x f g)
    (deliveries : List Delivery) (hd : ∀ d ∈ deliveries, d.Disjoint own x)
    (hu : Along (Feeds.step env) (Undisturbed own x) deliveries f) :
    Isolated own x (Feeds.run env deliveries f)
      (Feeds.run env (deliveries.filter (Delivery.isOf x)) g) := by
  refine run_purge (Isolated own x) (Delivery.isOf x) ?_ ?_ deliveries f g h (hu.and_of_forall hd)
  · intro f g d h hc hm
    cases d with
    | incremental channelId streamId frame message =>
      obtain rfl := of_decide_eq_true hm
      exact h.mine_message env streamId frame message hc.2 hc.1
    | sequenceReset channelId =>
      obtain rfl := of_decide_eq_true hm
      exact h.write {} (idle_within true) h.view h.pending
    | _ => cases hm
  · intro f g d h hc hm
    cases d with
    | incremental channelId streamId frame message =>
      exact h.other_message env (of_decide_eq_false hm) streamId frame message hc.2 hc.1
    | sequenceReset channelId =>
      exact h.writeOther (of_decide_eq_false hm) {} (idle_within false) ⟨fun _ _ => rfl, rfl⟩
        h.pending
    | _ => cases hc.2

section Sourced
variable {β P σ : Type} {G : P → Prop}

/-- The arbitration holds and hands on payloads with `G` only. -/
structure Arbiter.Sourced (A : Arbiter β P σ) (G : P → Prop)
    (st : Channel β P × List (Handed P)) : Prop where
  held : ∀ y ∈ A.buffer.held st.1.buffer, G y.2
  log : ∀ feed payload, .parse feed payload ∈ st.2 → G payload

theorem Arbiter.Sourced.parseMessage {A : Arbiter β P σ} {st : Channel β P × List (Handed P)}
    (h : A.Sourced G st) (feed : Priority) (n : Nat) {payload : P} (hp : G payload) :
    A.Sourced G (A.logged.parseMessage feed n payload st) := by
  refine ⟨h.held, ?_⟩
  intro feed' payload' hm
  cases List.mem_append.1 hm with
  | inl hm => exact h.log feed' payload' hm
  | inr hm =>
    cases List.mem_singleton.1 hm
    exact hp

theorem Arbiter.Sourced.receive {A : Arbiter β P σ} {st : Channel β P × List (Handed P)}
    (h : A.Sourced G st) (hfree : A.buffer.hasFree st.1.buffer = true) (feed : Priority)
    {payload : P} (hp : G payload) : A.Sourced G (A.logged.receive feed payload st) := by
  unfold Arbiter.receive
  split
  · exact h
  · next frame _ =>
    simp only
    split
    · exact h
    · split
      · refine ⟨?_, h.log⟩
        intro y hy
        cases (A.buffer.mem_keep hfree y).1 hy with
        | inl he => rw [he]; exact hp
        | inr hm => exact h.held y hm
      · exact h.parseMessage feed frame.sequenceNumber hp

theorem Arbiter.Sourced.drain {A : Arbiter β P σ} (feed : Priority) (fuel : Nat)
    {st : Channel β P × List (Handed P)} (h : A.Sourced G st) :
    A.Sourced G (A.logged.drain feed fuel st) := by
  induction fuel generalizing st with
  | zero => exact h
  | succ fuel ih =>
    unfold Arbiter.drain
    split
    · simp only
      split
      · next message buffer hget =>
        have hmem := A.buffer.mem_of_get hget
        have hst : A.Sourced G ({ st.1 with buffer := buffer }, st.2) :=
          ⟨fun y hy => h.held y ((hmem y).2 (Or.inr hy)), h.log⟩
        exact ih (hst.parseMessage feed _ (h.held _ ((hmem _).2 (Or.inl rfl))))
      · exact h
    · exact h

theorem Arbiter.Sourced.dispatch {A : Arbiter β P σ} {st : Channel β P × List (Handed P)}
    (h : A.Sourced G st) (feed : Priority) {payload : P} (hp : G payload) :
    A.Sourced G (A.logged.dispatch feed payload st) := by
  have harrive : A.Sourced G (st.1.arrive payload, st.2) := ⟨h.held, h.log⟩
  simp only [Arbiter.dispatch]
  split
  · next hfree => exact (harrive.receive hfree feed hp).drain feed _
  · refine ⟨?_, ?_⟩
    · intro y hy
      have hclear : y ∈ A.buffer.held (A.buffer.clear (st.1.arrive payload).buffer) := hy
      rw [A.buffer.held_clear] at hclear
      cases Multiset.notMem_zero y hclear
    · intro feed' payload' hm
      cases List.mem_append.1 hm with
      | inl hm => exact h.log feed' payload' hm
      | inr hm => cases List.mem_singleton.1 hm

end Sourced

section Packets
variable {β : Type}

/-- The arbitration state of a channel. -/
def Manager.channel (m : Manager β Qp Qo) (channelId : Nat) : Option (Channel β (List UInt8)) :=
  (m.channels channelId).map Channel2.channel

theorem deliveries_eq (S : Setup β Qp Qo) (m : Manager β Qp Qo) (packet : Packet) :
    S.deliveries m packet = match m.channel packet.channelId with
      | some channel => S.packetDeliveries packet channel
      | none => [] := by
  cases hm : m.channels packet.channelId with
  | none => simp only [Setup.deliveries, Manager.channel, hm, Option.map_none]
  | some item => simp only [Setup.deliveries, Manager.channel, hm, Option.map_some]

/-- The arbitration of a channel goes its own way. -/
theorem dispatch_channel (S : Setup β Qp Qo) (m : Manager β Qp Qo) (packet : Packet) (x : Nat) :
    (S.dispatch m packet).channel x =
      if x = packet.channelId then (m.channel x).map fun channel => (S.arbitrate packet channel).1
      else m.channel x := by
  cases hm : m.channels packet.channelId with
  | none =>
    simp only [Setup.dispatch, hm]
    split
    · next he => rw [he, Manager.channel, hm]; rfl
    · rfl
  | some item =>
    have hr := (onChannel_refines S packet item (fun _ => item.incrementalCache) m.shared rfl).1
    simp only [Setup.dispatch, hm, Manager.channel]
    by_cases he : x = packet.channelId
    · subst he
      rw [Function.update_self, if_pos rfl, hm, Option.map_some, Option.map_some, Option.map_some, hr]
    · rw [Function.update_of_ne he, if_neg he]

theorem mem_parsed (S : Setup β Qp Qo) {payload : List UInt8} {f : Frame → Message → Delivery}
    {d : Delivery} (h : d ∈ S.parsed payload f) :
    ∃ frame, ∃ message ∈ S.messages payload, d = f frame message := by
  unfold Setup.parsed at h
  split at h
  · next frame _ =>
    obtain ⟨message, hm, rfl⟩ := List.mem_map.1 h
    exact ⟨frame, message, hm, rfl⟩
  · cases h

/-- A packet of the incremental feed leads to deliveries of its channel. -/
theorem packetDeliveries_isOf (S : Setup β Qp Qo) (packet : Packet)
    (hp : packet.connectionType = .incremental) (channel : Channel β (List UInt8)) (x : Nat) :
    ∀ d ∈ S.packetDeliveries packet channel, d.isOf x = decide (packet.channelId = x) := by
  intro d hd
  simp only [Setup.packetDeliveries, hp] at hd
  obtain ⟨handed, -, hd⟩ := List.mem_flatMap.1 hd
  cases handed with
  | reset =>
    cases List.mem_singleton.1 hd
    rfl
  | parse feed payload =>
    obtain ⟨frame, message, -, rfl⟩ := mem_parsed S hd
    rfl

/-- What channel `x` is given does not depend on the packets of other channels. -/
theorem runDeliveries_filter (S : Setup β Qp Qo) (x : Nat) (packets : List Packet)
    (hp : ∀ packet ∈ packets, packet.connectionType = .incremental) (m m' : Manager β Qp Qo)
    (h : m.channel x = m'.channel x) :
    S.runDeliveries (packets.filter fun packet => packet.channelId = x) m' =
      (S.runDeliveries packets m).filter (Delivery.isOf x) := by
  induction packets generalizing m m' with
  | nil => rfl
  | cons packet packets ih =>
    have hrest := fun p hm => hp p (List.mem_cons_of_mem packet hm)
    have hof : ∀ d ∈ S.deliveries m packet, d.isOf x = decide (packet.channelId = x) := by
      rw [deliveries_eq]
      split
      · exact packetDeliveries_isOf S packet (hp packet (by simp)) _ x
      · intro d hd
        cases hd
    rw [Setup.runDeliveries, List.filter_append]
    by_cases hx : packet.channelId = x
    · have hall : (S.deliveries m packet).filter (Delivery.isOf x) = S.deliveries m packet := by
        rw [List.filter_eq_self]
        intro d hd
        rw [hof d hd]
        exact decide_eq_true hx
      have hsame : S.deliveries m packet = S.deliveries m' packet := by
        rw [deliveries_eq, deliveries_eq, hx, h]
      rw [List.filter_cons_of_pos (by simpa using hx), Setup.runDeliveries, hall, hsame]
      congr 1
      apply ih hrest
      rw [dispatch_channel, dispatch_channel, h]
    · have hnone : (S.deliveries m packet).filter (Delivery.isOf x) = [] := by
        rw [List.filter_eq_nil_iff]
        intro d hd
        rw [hof d hd]
        simpa using hx
      rw [List.filter_cons_of_neg (by simpa using hx), hnone, List.nil_append]
      apply ih hrest
      rw [dispatch_channel, if_neg (Ne.symm hx)]
      exact h

/-- The messages of a packet name securities in `own` if it is for channel `x`, and no others
otherwise. -/
def Setup.Disjoint (S : Setup β Qp Qo) (own : Int → Bool) (x channelId : Nat)
    (payload : List UInt8) : Prop :=
  ∀ message ∈ S.messages payload, ∀ securityId ∈ securitiesOf message,
    own securityId = decide (channelId = x)

/-- The payloads that wait in the buffers meet the condition of their channel. -/
def Setup.HeldDisjoint (S : Setup β Qp Qo) (own : Int → Bool) (x : Nat) (m : Manager β Qp Qo) :
    Prop :=
  ∀ channelId channel, m.channel channelId = some channel →
    ∀ y ∈ S.buffer.held channel.buffer, S.Disjoint own x channelId y.2

theorem arbitrate_sourced (S : Setup β Qp Qo) (x : Nat) (packet : Packet)
    (hp : packet.connectionType = .incremental)
    (hd : S.Disjoint own x packet.channelId packet.payload) (channel : Channel β (List UInt8))
    (h : ∀ y ∈ S.buffer.held channel.buffer, S.Disjoint own x packet.channelId y.2) :
    (S.arbiter packet.channelId).Sourced (S.Disjoint own x packet.channelId)
      (S.arbitrate packet channel) := by
  simp only [Setup.arbitrate, hp]
  apply Arbiter.Sourced.dispatch
  · refine ⟨h, ?_⟩
    intro feed payload hm
    cases hm
  · exact hd

theorem runDeliveries_disjoint (S : Setup β Qp Qo) (x : Nat) (packets : List Packet)
    (hp : ∀ packet ∈ packets, packet.connectionType = .incremental)
    (hd : ∀ packet ∈ packets, S.Disjoint own x packet.channelId packet.payload)
    (m : Manager β Qp Qo) (h : S.HeldDisjoint own x m) :
    ∀ d ∈ S.runDeliveries packets m, d.Disjoint own x := by
  induction packets generalizing m with
  | nil =>
    intro d hm
    cases hm
  | cons packet packets ih =>
    have hpacket := hp packet (by simp)
    have hsourced := fun channel hc => arbitrate_sourced S x packet hpacket (hd packet (by simp))
      channel (h packet.channelId channel hc)
    have hheld : S.HeldDisjoint own x (S.dispatch m packet) := by
      intro channelId channel hc
      rw [dispatch_channel] at hc
      split at hc
      · next he =>
        subst he
        obtain ⟨before, hb, rfl⟩ := Option.map_eq_some_iff.1 hc
        exact (hsourced before hb).held
      · exact h channelId channel hc
    intro d hm
    cases List.mem_append.1 hm with
    | inr hm =>
      exact ih (fun p hx => hp p (List.mem_cons_of_mem packet hx))
        (fun p hx => hd p (List.mem_cons_of_mem packet hx)) _ hheld d hm
    | inl hm =>
      rw [deliveries_eq] at hm
      split at hm
      · next channel hc =>
        simp only [Setup.packetDeliveries, hpacket] at hm
        obtain ⟨handed, hlog, hm⟩ := List.mem_flatMap.1 hm
        cases handed with
        | reset =>
          cases List.mem_singleton.1 hm
          trivial
        | parse feed payload =>
          obtain ⟨frame, message, hmsg, rfl⟩ := mem_parsed S hm
          exact (hsourced channel hc).log feed payload hlog message hmsg
      · cases hm

theorem start_isolated (S : Setup β Qp Qo) (channelIds : List Nat) (b : β) (items : List SecDef)
    (x : Nat) : Isolated own x (S.start channelIds b items).feeds (S.start channelIds b items).feeds := by
  have hidle : ∀ channelId, (S.start channelIds b items).feeds.caches channelId = {} := by
    intro channelId
    simp only [Manager.feeds, Setup.start]
    split
    · next item hi =>
      split at hi
      · cases hi
        rfl
      · cases hi
    · rfl
  refine ⟨⟨fun _ _ => rfl, rfl⟩, rfl, ?_, ?_, Or.inl ⟨rfl, .empty⟩⟩
  · rw [hidle]
    exact idle_within true
  · intro channelId _
    rw [hidle]
    exact idle_within false

theorem start_heldDisjoint (S : Setup β Qp Qo) (channelIds : List Nat) (b : β)
    (items : List SecDef) (hb : S.buffer.held b = 0) (x : Nat) :
    S.HeldDisjoint own x (S.start channelIds b items) := by
  intro channelId channel hc y hy
  simp only [Manager.channel, Setup.start] at hc
  split at hc
  · cases hc
    rw [hb] at hy
    cases Multiset.notMem_zero y hy
  · cases hc

/-- Channels with different securities do not interfere as long as no trade summary finds
fragments of the other side: channel `x` publishes what it publishes alone. -/
theorem channels_isolated (S : Setup β Qp Qo) (channelIds : List Nat) (b : β)
    (items : List SecDef) (hb : S.buffer.held b = 0) (x : Nat) (own : Int → Bool)
    (packets : List Packet)
    (hp : ∀ packet ∈ packets, packet.connectionType = .incremental)
    (hd : ∀ packet ∈ packets, S.Disjoint own x packet.channelId packet.payload)
    (hu : Along (Feeds.step S.env) (Undisturbed own x)
      (S.runDeliveries packets (S.start channelIds b items)) (S.start channelIds b items).feeds) :
    publishedFor own (S.run packets (S.start channelIds b items)).shared.trace =
      publishedFor own (S.run (packets.filter fun packet => packet.channelId = x)
        (S.start channelIds b items)).shared.trace := by
  have hdeliveries := runDeliveries_disjoint S x packets hp hd _
    (start_heldDisjoint S channelIds b items hb x)
  have hrun := (start_isolated S channelIds b items x).run S.env _ hdeliveries hu
  rw [← runDeliveries_filter S x packets hp _ _ rfl, ← run_refines, ← run_refines] at hrun
  exact hrun.view.published

end Packets

/-- Template 48 on the wire; quantities and ids are small and not negative here. -/
def tradeSummaryBody (value : TradeSummary) : List UInt8 :=
  messageHeader (32 + 32 * value.noMDEntries.length + 16 * value.noOrderIDEntries.length) 11 48 ++
    toLittleEndian 8 value.transactTime ++ toLittleEndian 3 0 ++
    toLittleEndian 2 32 ++ toLittleEndian 1 value.noMDEntries.length ++
    (value.noMDEntries.flatMap fun item =>
      toLittleEndian 8 item.mDEntryPx.toNat ++ toLittleEndian 4 item.mDEntrySize.toNat ++
        toLittleEndian 4 item.securityID.toNat ++ toLittleEndian 4 item.rptSeq ++
        toLittleEndian 4 item.numberOfOrders.toNat ++ [1, 0] ++
        toLittleEndian 4 (getInt item.mDTradeEntryID) ++ [0, 0]) ++
    toLittleEndian 2 16 ++ toLittleEndian 5 0 ++
    toLittleEndian 1 value.noOrderIDEntries.length ++
    value.noOrderIDEntries.flatMap fun item =>
      toLittleEndian 8 item.orderID ++ toLittleEndian 4 item.lastQty.toNat ++ toLittleEndian 4 0

/-- A trade of security 7 between two orders: the entry with the first order, and the rest. -/
def firstFragment : TradeSummary :=
  ⟨100, [⟨5000000000000, 5, 7, 1, 2, some 1, .buy⟩], [⟨11, 5⟩]⟩

def secondFragment : TradeSummary := ⟨100, [], [⟨12, 5⟩]⟩

/-- A trade of security 8 at another time. -/
def otherSummary : TradeSummary := ⟨200, [⟨18000000000000, 3, 8, 1, 1, some 2, .buy⟩], [⟨21, 3⟩]⟩

/-- A message for security 8 that is no trade summary. -/
def otherLimits : List UInt8 :=
  messageHeader 56 11 50 ++ toLittleEndian 11 0 ++ toLittleEndian 2 32 ++ [1] ++
    toLittleEndian 24 0 ++ toLittleEndian 4 8 ++ toLittleEndian 4 2

def summarySetup : Setup (List (Nat × List UInt8)) (Option Nat) (Option Nat) :=
  Setup.ofBodies {}
    [(tradeSummaryBody firstFragment, [.tradeSummary48 firstFragment]),
      (tradeSummaryBody secondFragment, [.tradeSummary48 secondFragment]),
      (tradeSummaryBody otherSummary, [.tradeSummary48 otherSummary]),
      (otherLimits, [.limitsBanding50 [⟨8, 2⟩]])]

def summaryStart : Manager (List (Nat × List UInt8)) (Option Nat) (Option Nat) :=
  summarySetup.start [310, 320] [] [SecDef.sample 7 "ESZ5", SecDef.sample 8 "NQZ5"]

def incrementalPacket (channelId sequenceNumber : Nat) (body : List UInt8) : Packet :=
  ⟨channelId, .incremental, .primary, frameHeader sequenceNumber ++ body⟩

/-- Channel 320 has a trade summary before the fragments of channel 310 and another message
between them. -/
theorem channels_isolated_between_fragments :
    let packets := [incrementalPacket 320 1 (tradeSummaryBody otherSummary),
      incrementalPacket 310 1 (tradeSummaryBody firstFragment),
      incrementalPacket 320 2 otherLimits,
      incrementalPacket 310 2 (tradeSummaryBody secondFragment)]
    let own := fun securityId : Int => decide (securityId = 7)
    publishedFor own (summarySetup.run packets summaryStart).shared.trace =
        publishedFor own (summarySetup.run (packets.filter fun packet => packet.channelId = 310)
          summaryStart).shared.trace ∧
      publishedFor own (summarySetup.run packets summaryStart).shared.trace ≠ [] := by
  intro packets own
  refine ⟨?_, by decide +kernel⟩
  refine channels_isolated summarySetup [310, 320] [] _ rfl 310 own packets (by decide +kernel) ?_
    (by decide +kernel)
  unfold Setup.Disjoint
  decide +kernel

/-- The trade summary of channel 320 between the fragments drops the first of them: channel 310
publishes nothing where it publishes a trade alone. -/
theorem channels_interfere_between_fragments :
    let packets := [incrementalPacket 310 1 (tradeSummaryBody firstFragment),
      incrementalPacket 320 1 (tradeSummaryBody otherSummary),
      incrementalPacket 310 2 (tradeSummaryBody secondFragment)]
    let own := fun securityId : Int => decide (securityId = 7)
    (∀ packet ∈ packets, packet.connectionType = .incremental) ∧
      (∀ packet ∈ packets, summarySetup.Disjoint own 310 packet.channelId packet.payload) ∧
      publishedFor own (summarySetup.run packets summaryStart).shared.trace ≠
        publishedFor own (summarySetup.run (packets.filter fun packet => packet.channelId = 310)
          summaryStart).shared.trace := by
  intro packets own
  refine ⟨by decide +kernel, ?_, by decide +kernel⟩
  unfold Setup.Disjoint
  decide +kernel

end RoqCme.MarketData
