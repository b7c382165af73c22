import RoqCme.Mdp.Parser
import RoqCme.MarketData.Manager

/-! From the bytes of a packet to the handlers: the receiver reads into a buffer of 4096 bytes, the
incremental feed copies the payload into a slot of 2048, and the parser cuts it into messages by the
sizes that it finds there. -/
namespace RoqCme.Mdp
open RoqCme.Lib
variable {σ τ ε : Type*}

/-- The loop comes to `rest`, behind whole messages of known templates whose calls return. -/
inductive ComesTo (H : Handler σ ε) (frame : Frame) : List UInt8 → σ → List UInt8 → σ → Prop
  | here (message : List UInt8) (s : σ) : ComesTo H frame message s message s
  | next {message rest : List UInt8} {s s' : σ} (sized : WellSized message)
      (known : templateKind (valueAt message).templateId ≠ .unknown)
      (returns : (H.call frame (valueAt message) s).2 = none)
      (comes : ComesTo H frame (message.drop (sizeAt message))
        (H.call frame (valueAt message) s).1 rest s') :
      ComesTo H frame message s rest s'

/-- The sizes that the loop reads are those of messages that are there in full. -/
def LoopFits (H : Handler σ ε) (frame : Frame) (message : List UInt8) (s : σ) : Prop :=
  ∀ rest s', ComesTo H frame message s rest s' → sizeLength + headerLength ≤ rest.length →
    WellSized rest

/-- All spans lie within the bytes, and there is a result or an exception. -/
def Parsed.Safe (p : Parsed σ ε) : Prop :=
  (∀ a ∈ p.accesses, a.InBounds) ∧ p.ending ≠ .undefined ∧ p.ending ≠ .outOfFuel

instance [DecidableEq ε] (p : Parsed σ ε) : Decidable p.Safe :=
  inferInstanceAs (Decidable (_ ∧ _))

/-- What came before in bounds makes no difference. -/
theorem Parsed.safe_prepend {p : Parsed σ ε} {accesses : List Access}
    (h : ∀ a ∈ accesses, a.InBounds) :
    ({ p with accesses := accesses ++ p.accesses } : Parsed σ ε).Safe ↔ p.Safe := by
  rw [Parsed.Safe, Parsed.Safe, List.forall_mem_append, and_assoc, and_iff_right h]

theorem WellSized.length_le {message : List UInt8} (h : WellSized message) :
    sizeLength + headerLength ≤ message.length := Nat.le_trans h.1 h.2

/-- Behind `message` there is nothing more that the loop comes to. -/
theorem LoopFits.of_stop {H : Handler σ ε} {frame : Frame} {message : List UInt8} {s : σ}
    (hstop : WellSized message → templateKind (valueAt message).templateId ≠ .unknown →
      (H.call frame (valueAt message) s).2 ≠ none)
    (hfits : sizeLength + headerLength ≤ message.length → WellSized message) :
    LoopFits H frame message s := by
  intro rest s' hcomes hlength
  cases hcomes with
  | here => exact hfits hlength
  | next sized known returns hrest => exact absurd returns (hstop sized known)

theorem LoopFits.next_iff {H : Handler σ ε} {frame : Frame} {message : List UInt8} {s : σ}
    (sized : WellSized message) (known : templateKind (valueAt message).templateId ≠ .unknown)
    (returns : (H.call frame (valueAt message) s).2 = none) :
    LoopFits H frame message s ↔
      LoopFits H frame (message.drop (sizeAt message)) (H.call frame (valueAt message) s).1 := by
  constructor
  · intro h rest s' hcomes
    exact h rest s' (.next sized known returns hcomes)
  · intro h rest s' hcomes
    cases hcomes with
    | here => exact fun _ => sized
    | next _ _ _ hrest => exact h rest s' hrest

theorem headAccesses_inBounds {message : List UInt8} (h : WellSized message) :
    ∀ a ∈ headAccesses message, a.InBounds := by
  have hlength := h.length_le
  have hbody : bodyLength (sizeAt message) = sizeAt message - (sizeLength + headerLength) :=
    bodyLength_of_le h.1 (sizeAt_lt message)
  have hle := h.2
  intro a ha
  simp only [headAccesses, List.mem_cons, List.not_mem_nil, or_false] at ha
  simp only [sizeLength, headerLength] at hlength hbody
  rcases ha with rfl | rfl | rfl
  all_goals
    simp only [Access.InBounds, List.length_drop, hbody, sizeLength, headerLength]
    omega

/-- The `subspan` behind a message that is there in full. -/
theorem behind_inBounds {message : List UInt8} (h : WellSized message) :
    Access.InBounds
      ⟨((message.drop sizeLength).drop headerLength).length, bodyLength (sizeAt message), 0⟩ := by
  have hbody : bodyLength (sizeAt message) = sizeAt message - (sizeLength + headerLength) :=
    bodyLength_of_le h.1 (sizeAt_lt message)
  have hle := h.2
  simp only [Access.InBounds, List.length_drop, hbody, sizeLength, headerLength]
  omega

/-- The `subspan` of a body by a size that does not fit: below ten the length wraps. -/
theorem body_not_inBounds {message : List UInt8}
    (hlength : sizeLength + headerLength ≤ message.length) (h : ¬ WellSized message)
    (hreal : message.length < 2 ^ 63) :
    ¬ Access.InBounds
      ⟨((message.drop sizeLength).drop headerLength).length, 0, bodyLength (sizeAt message)⟩ := by
  have hlt := sizeAt_lt message
  simp only [WellSized, sizeLength, headerLength] at h hlength
  simp only [Access.InBounds, List.length_drop, bodyLength, sizeLength, headerLength]
  omega

namespace Parser
variable (H : Handler σ ε) (frame : Frame)

/-- A round without the two headers ends with an exception. -/
theorem round_of_short {message : List UInt8} (s : σ)
    (h : message.length < sizeLength + headerLength) :
    ∃ p, round H frame message s = .ended p ∧ p.Safe := by
  by_cases htwo : message.length < sizeLength
  · have hround : round H frame message s = .ended ⟨s, .bufferTooSmall message.length, []⟩ := by
      rw [round, if_pos htwo]
    exact ⟨_, hround, fun a ha => absurd ha List.not_mem_nil, by simp⟩
  · have height : (message.drop sizeLength).length < headerLength := by
      rw [List.length_drop]
      omega
    have hround : round H frame message s =
        .ended ⟨s, .headerTooShort (message.drop sizeLength).length,
          [⟨message.length, sizeLength, 0⟩]⟩ := by
      rw [round, if_neg htwo, if_pos height]
    refine ⟨_, hround, ?_, by simp⟩
    intro a ha
    obtain rfl := List.mem_singleton.mp ha
    exact Nat.le_of_not_lt htwo

/-- A round with a size that does not fit takes the body by it, and does not go on. -/
theorem round_of_malformed {message : List UInt8} (s : σ)
    (hlength : sizeLength + headerLength ≤ message.length) (h : ¬ WellSized message)
    (hreal : message.length < 2 ^ 63) :
    ∃ p, round H frame message s = .ended p ∧ ¬ p.Safe := by
  have hbad := body_not_inBounds hlength h hreal
  have hhead : ∀ {p : Parsed σ ε} {more : List Access}, p.accesses = headAccesses message ++ more →
      ¬ p.Safe := by
    intro p more hp hsafe
    refine hbad (hsafe.1 _ ?_)
    rw [hp]
    simp [headAccesses]
  have htwo : ¬ message.length < sizeLength := by omega
  have height : ¬ (message.drop sizeLength).length < headerLength := by
    rw [List.length_drop]
    omega
  have hbehind : ((message.drop sizeLength).drop headerLength).length <
      bodyLength (sizeAt message) := by
    simp only [Access.InBounds, Nat.zero_add, Nat.not_le] at hbad
    exact hbad
  have hsize : (uint16At message 0).toNat = sizeAt message := rfl
  unfold round
  rw [if_neg htwo]
  simp only [if_neg height, hsize, if_pos hbehind]
  cases hspan : subspan ((message.drop sizeLength).drop headerLength) 0
      (bodyLength (sizeAt message)) with
  | none => exact ⟨_, rfl, hhead (List.append_nil _).symm⟩
  | some body =>
    dsimp only
    split
    · exact ⟨_, rfl, hhead (List.append_nil _).symm⟩
    · split
      · exact ⟨_, rfl, hhead (List.append_nil _).symm⟩
      · exact ⟨_, rfl, hhead rfl⟩

theorem loop_ended {message : List UInt8} {s : σ} {p : Parsed σ ε} (fuel : Nat)
    (hne : message ≠ []) (h : round H frame message s = .ended p) :
    loop H frame (fuel + 1) message s = p := by
  rw [loop, if_neg hne, h]

/-- The loop is safe exactly when all sizes that it reads fit. -/
theorem loop_safe_iff (fuel : Nat) (message : List UInt8) (s : σ) (hfuel : message.length < fuel)
    (hreal : message.length < 2 ^ 63) :
    (loop H frame fuel message s).Safe ↔ LoopFits H frame message s := by
  induction fuel generalizing message s with
  | zero => exact absurd hfuel (Nat.not_lt_zero _)
  | succ fuel ih =>
    by_cases hsized : WellSized message
    · by_cases hkind : templateKind (valueAt message).templateId = .unknown
      · rw [loop_unknown hsized fuel hkind]
        refine iff_of_true ⟨headAccesses_inBounds hsized, by simp⟩ ?_
        exact .of_stop (fun _ hknown => absurd hkind hknown) fun _ => hsized
      · cases hend : (H.call frame (valueAt message) s).2 with
        | some e =>
          rw [loop_thrown hsized fuel hkind hend]
          refine iff_of_true ⟨headAccesses_inBounds hsized, by simp⟩ ?_
          exact .of_stop (fun _ _ hnone => by rw [hnone] at hend; cases hend) fun _ => hsized
        | none =>
          have hlength := hsized.length_le
          have hten := hsized.1
          have hshorter : (message.drop (sizeAt message)).length < message.length := by
            rw [List.length_drop]
            simp only [sizeLength, headerLength] at hlength hten
            omega
          have hrest := ih (message.drop (sizeAt message)) (H.call frame (valueAt message) s).1
            (by omega) (by omega)
          have hround : ∀ a ∈ headAccesses message ++
              [⟨((message.drop sizeLength).drop headerLength).length,
                bodyLength (sizeAt message), 0⟩], a.InBounds := by
            rw [List.forall_mem_append, List.forall_mem_singleton]
            exact ⟨headAccesses_inBounds hsized, behind_inBounds hsized⟩
          rw [LoopFits.next_iff hsized hkind hend, ← hrest, loop_next hsized fuel hkind hend]
          exact Parsed.safe_prepend hround
    · by_cases hlength : sizeLength + headerLength ≤ message.length
      · have hne : message ≠ [] := by
          rintro rfl
          simp [sizeLength, headerLength] at hlength
        obtain ⟨p, hp, hunsafe⟩ := round_of_malformed H frame s hlength hsized hreal
        rw [loop_ended H frame fuel hne hp]
        exact iff_of_false hunsafe fun hfits => hsized (hfits message s (.here message s) hlength)
      · have hfits : LoopFits H frame message s :=
          .of_stop (fun hsized' => absurd hsized' hsized) fun hlength' => absurd hlength' hlength
        refine iff_of_true ?_ hfits
        by_cases hne : message = []
        · rw [loop, if_pos hne]
          exact ⟨fun a ha => absurd ha List.not_mem_nil, by simp⟩
        · obtain ⟨p, hp, hsafe⟩ := round_of_short H frame s (Nat.lt_of_not_le hlength)
          rw [loop_ended H frame fuel hne hp]
          exact hsafe

end Parser

/-- A handler that takes no notice of the frame and never throws. -/
def Handler.ofUpdate (f : Frame → σ → Flyweight → σ) : Handler σ Empty :=
  { frame := fun _ => .skip
    message := fun frame value => .update fun s => f frame s value }

/-- The messages that the parser hands over. -/
def Parser.flyweights (payload : List UInt8) : List Flyweight :=
  (Parser.dispatch (.ofUpdate fun _ values value => values ++ [value]) payload []).state

theorem Handler.call_ofUpdate (f : Frame → σ → Flyweight → σ) (frame : Frame) (value : Flyweight)
    (s : σ) : (Handler.ofUpdate f).call frame value s =
      (if templateKind value.templateId = .supported then f frame s value else s, none) := by
  rw [Handler.call]
  cases templateKind value.templateId <;> rfl

/-- Both go on with the same rest, or both end. -/
inductive Round.Related (R : σ → τ → Prop) : Round σ Empty → Round τ Empty → Prop
  | ended {p : Parsed σ Empty} {q : Parsed τ Empty} (h : R p.state q.state) :
      Related R (.ended p) (.ended q)
  | next {message : List UInt8} {s : σ} {t : τ} {as bs : List Access} (h : R s t) :
      Related R (.next message s as) (.next message t bs)

namespace Parser
variable {R : σ → τ → Prop} {f : Frame → σ → Flyweight → σ} {g : Frame → τ → Flyweight → τ}
  {frame : Frame} (hstep : ∀ s t value, R s t → R (f frame s value) (g frame t value))
include hstep

/-- The parser does not look at the state of such a handler. -/
theorem round_related (message : List UInt8) {s : σ} {t : τ} (h : R s t) :
    Round.Related R (round (.ofUpdate f) frame message s) (round (.ofUpdate g) frame message t) := by
  have hcall : ∀ value : Flyweight,
      R (if templateKind value.templateId = .supported then f frame s value else s)
        (if templateKind value.templateId = .supported then g frame t value else t) := by
    intro value
    split
    · exact hstep s t value h
    · exact h
  rw [round, round]
  generalize bodyLength (uint16At message 0).toNat = length
  simp only [Handler.call_ofUpdate]
  split
  · exact .ended h
  · split
    · exact .ended h
    · split
      · exact .ended h
      · split
        · exact .ended h
        · split
          · exact .ended (hcall _)
          · exact .next (hcall _)

theorem loop_related (fuel : Nat) (message : List UInt8) {s : σ} {t : τ} (h : R s t) :
    R (loop (.ofUpdate f) frame fuel message s).state
      (loop (.ofUpdate g) frame fuel message t).state := by
  induction fuel generalizing message s t with
  | zero => exact h
  | succ fuel ih =>
    have hround := round_related hstep message h
    by_cases hnil : message = []
    · rw [loop, loop, if_pos hnil, if_pos hnil]
      exact h
    · rw [loop, loop, if_neg hnil, if_neg hnil]
      generalize round (.ofUpdate f) frame message s = r at hround ⊢
      generalize round (.ofUpdate g) frame message t = r' at hround ⊢
      cases hround with
      | ended hended => exact hended
      | next hnext => exact ih _ hnext

omit hstep in
/-- What a handler makes of a packet is a fold over the messages that the parser hands over. -/
theorem dispatch_ofUpdate (f : Frame → σ → Flyweight → σ) (payload : List UInt8) (s : σ) :
    (dispatch (.ofUpdate f) payload s).state =
      match Frame.parse payload with
      | some frame => (flyweights payload).foldl (f frame) s
      | none => s := by
  rw [flyweights, dispatch, dispatch]
  cases Frame.parse payload with
  | none => rfl
  | some frame =>
    have hfold : ∀ t values value, t = List.foldl (f frame) s values →
        f frame t value = List.foldl (f frame) s (values ++ [value]) := by
      rintro t values value rfl
      rw [List.foldl_append, List.foldl_cons, List.foldl_nil]
    exact loop_related (R := fun t values => t = List.foldl (f frame) s values) hfold
      payload.length (payload.drop Frame.size) rfl

end Parser

/-- The sizes that the parser reads in a packet fit. -/
def SizesFit (H : Handler σ ε) (payload : List UInt8) (s : σ) : Prop :=
  ∀ frame, Frame.parse payload = some frame → (H.frame frame s).2 = none →
    LoopFits H frame (payload.drop Frame.size) (H.frame frame s).1

namespace Parser

theorem dispatch_safe_iff (H : Handler σ ε) (payload : List UInt8) (s : σ)
    (hreal : payload.length < 2 ^ 63) : (dispatch H payload s).Safe ↔ SizesFit H payload s := by
  have hnothing : ∀ {t : σ} {e : Ending ε}, e ≠ .undefined ∧ e ≠ .outOfFuel →
      (⟨t, e, []⟩ : Parsed σ ε).Safe :=
    fun he => ⟨fun a ha => absurd ha List.not_mem_nil, he⟩
  cases hframe : Frame.parse payload with
  | none =>
    rw [dispatch, hframe]
    refine iff_of_true (hnothing (by simp)) ?_
    intro frame h
    rw [hframe] at h
    cases h
  | some frame =>
    have hfits : SizesFit H payload s ↔ ((H.frame frame s).2 = none →
        LoopFits H frame (payload.drop Frame.size) (H.frame frame s).1) := by
      simp only [SizesFit, hframe, Option.some.injEq, forall_eq']
    have hlong : Frame.size ≤ payload.length := by
      by_contra hshort
      rw [Frame.parse, if_pos (Nat.lt_of_not_le hshort)] at hframe
      cases hframe
    rw [hfits, dispatch, hframe]
    dsimp only
    cases hend : (H.frame frame s).2 with
    | some e => exact iff_of_true (hnothing (by simp)) (by simp)
    | none =>
      have hshorter : (payload.drop Frame.size).length < payload.length := by
        rw [List.length_drop]
        simp only [Frame.size] at hlong ⊢
        omega
      have hloop := loop_safe_iff H frame payload.length (payload.drop Frame.size)
        (H.frame frame s).1 hshorter (by omega)
      have hskip : ∀ a ∈ [(⟨payload.length, Frame.size, 0⟩ : Access)], a.InBounds :=
        List.forall_mem_singleton.2 hlong
      simp only [true_imp_iff]
      rw [← hloop]
      exact Parsed.safe_prepend hskip

end Parser
end RoqCme.Mdp

namespace RoqCme.MarketData
open RoqCme.Lib RoqCme.Mdp
variable {σ ε : Type*}

/-- `BUFFER_SIZE` of `market_data/manager`: the bytes of a slot. -/
def slotSize : Nat := 2048

/-- `BUFFER_SIZE` of `gateway/shared`: what the receiver reads at most. -/
def receiveSize : Nat := 4096

/-- The copy of a payload into a slot. -/
def Incremental.copy (payload : List UInt8) : Access := ⟨slotSize, 0, payload.length⟩

/-- A payload that the incremental feed copies and parses stays within its buffers. -/
def Incremental.StaysInBounds (H : Handler σ ε) (payload : List UInt8) (s : σ) : Prop :=
  (Incremental.copy payload).InBounds ∧ (Parser.dispatch H payload s).Safe

instance [DecidableEq ε] (H : Handler σ ε) (payload : List UInt8) (s : σ) :
    Decidable (Incremental.StaysInBounds H payload s) :=
  inferInstanceAs (Decidable (_ ∧ _))

theorem stays_in_bounds_iff (H : Handler σ ε) (payload : List UInt8) (s : σ) :
    Incremental.StaysInBounds H payload s ↔ payload.length ≤ slotSize ∧ SizesFit H payload s := by
  have hcopy : (Incremental.copy payload).InBounds ↔ payload.length ≤ slotSize := by
    simp only [Access.InBounds, Incremental.copy, Nat.zero_add]
  rw [Incremental.StaysInBounds, hcopy]
  refine and_congr_right fun hle => Parser.dispatch_safe_iff H payload s ?_
  simp only [slotSize] at hle
  omega

/-- A heartbeat that claims to be of this size, alone in a packet. -/
def heartbeatOfSize (size : UInt8) : List UInt8 :=
  [1, 0, 0, 0] ++ List.replicate 8 0 ++ [size, 0] ++ [0, 0, 12, 0, 1, 0, 9, 0]

/-- The heartbeat is of size 10: less wraps around, more is beyond the end. A payload of 2049 bytes
does not go into a slot. -/
theorem malformed_packets_out_of_bounds :
    let silent : Handler Unit Empty := ⟨fun _ => .skip, fun _ _ => .skip⟩
    (∀ size ∈ [0, 9, 11], (heartbeatOfSize size).length ≤ receiveSize ∧
        ¬ Incremental.StaysInBounds silent (heartbeatOfSize size) ()) ∧
      (List.replicate 2049 (0 : UInt8)).length ≤ receiveSize ∧
      ¬ Incremental.StaysInBounds silent (List.replicate 2049 0) () := by
  refine ⟨by decide +kernel, by rw [List.length_replicate]; decide, ?_⟩
  rintro ⟨hcopy, -⟩
  rw [Access.InBounds, Incremental.copy, List.length_replicate] at hcopy
  exact absurd hcopy (by decide)

section Codec
variable {β Qp Qo : Type} (S : Setup β Qp Qo) (decode : Flyweight → Message)

/-- The codec of the setup makes messages of what the parser hands over. -/
def Setup.Decodes : Prop :=
  ∀ payload, S.messages payload = (Parser.flyweights payload).map decode

variable {S decode} (hS : S.Decodes decode) {σ : Type} (handler : Frame → σ → Message → σ)
include hS

/-- The packets of the manager go through the parser. -/
theorem parse_eq_dispatch (payload : List UInt8) (st : σ) :
    S.parse handler payload st =
      (Parser.dispatch (.ofUpdate fun frame s value => handler frame s (decode value))
        payload st).state := by
  rw [Parser.dispatch_ofUpdate, Setup.parse, hS payload]
  cases Frame.parse payload with
  | none => rfl
  | some frame => exact List.foldl_map ..

/-- The handlers of the manager get the messages that the exchange sent, up to an unknown one. -/
theorem parse_packet (sequenceNumber : UInt32) (sendingTime : UInt64)
    (messages : List SbeMessage) (st : σ) :
    S.parse handler (encodePacket sequenceNumber sendingTime messages) st =
      ((Parser.seen messages).filter fun m => m.kind = .supported).foldl
        (fun s m => handler ⟨sequenceNumber.toNat, sendingTime.toNat⟩ s (decode m.value)) st := by
  let frame : Frame := ⟨sequenceNumber.toNat, sendingTime.toNat⟩
  let H : Handler σ Empty := .ofUpdate fun frame s value => handler frame s (decode value)
  have hcalls : (H.frame frame).andThen
      (Command.all ((Parser.seen messages).map fun m => H.call frame m.value)) st =
        (((Parser.seen messages).filter fun m => m.kind = .supported).foldl
          (fun s m => handler frame s (decode m.value)) st, none) := by
    rw [Parser.all_call]
    exact Command.all_update (fun (m : SbeMessage) s => handler frame s (decode m.value)) _ st
  have hpacket := (Parser.dispatch_packet H sequenceNumber sendingTime messages st).trans
    (congrArg (outcomeOf · _) hcalls)
  rw [parse_eq_dispatch hS]
  exact congrArg Prod.fst hpacket

end Codec

end RoqCme.MarketData
