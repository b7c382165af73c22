import RoqCme.Mdp.ConfigReader
import Mathlib.Data.Fintype.EquivFin

/-! What ends up in the record of a channel. Connections and products are added to the channel that
is pending, also where no channel is open: they are delivered with the next one. -/
namespace RoqCme.Mdp.ConfigReader
open RoqCme.Lib RoqCme.Lib.Xml

/-- The elements that carry an id. -/
def recordKinds : List String := ["channel", "connection", "marketsegment"]

/-- A start tag of a channel whose id can be converted, or another event. -/
def ReadableTag (fromChars : FromChars) : Event → Prop
  | .startElement name attributes =>
    name = "channel" → (fromChars (String.join (values "id" attributes))).isSome
  | _ => True

def Readable (fromChars : FromChars) (es : List Event) : Prop := ∀ e ∈ es, ReadableTag fromChars e

/-- A part of a record goes into the pending channel while no channel is open. -/
def Intrudes (stack : List String) : Event → Prop
  | .startElement name attributes =>
    name = "product" ∧ values "code" attributes ≠ [] ∧ "channel" ∉ stack ∧
      ∃ kind ∈ recordKinds, kind ∈ stack
  | .endElement name => name = "connection" ∧ "channel" ∉ stack
  | .characterData _ => False

instance (stack : List String) (e : Event) : Decidable (Intrudes stack e) :=
  match e with
  | .startElement name attributes => inferInstanceAs (Decidable
      (name = "product" ∧ values "code" attributes ≠ [] ∧ "channel" ∉ stack ∧
        ∃ kind ∈ recordKinds, kind ∈ stack))
  | .endElement name => inferInstanceAs (Decidable (name = "connection" ∧ "channel" ∉ stack))
  | .characterData _ => isFalse id

/-- No such event comes before a channel that is read. -/
def Undisturbed (fromChars : FromChars) (f : List Event) : Prop :=
  ∀ before e between attributes after,
    f = before ++ e :: (between ++ .startElement "channel" attributes :: after) →
      Readable fromChars (before ++ e :: (between ++ [.startElement "channel" attributes])) →
        ¬ Intrudes (before.foldl next []) e

theorem undisturbed_of_along {fromChars : FromChars} {f : List Event}
    (h : Along next (fun s e => ¬ Intrudes s e) f []) : Undisturbed fromChars f := by
  intro before e between attributes after hsplit hread
  exact (along_iff f []).1 h before e _ hsplit

/-- The calls at the end of a channel are the same, whatever is written inside the records before
it. -/
def ChannelsApart (fromChars : FromChars) (f : List Event) : Prop :=
  ∀ before element after, f = before ++ element ++ after → IsElement "channel" element →
    ∀ before', Alike recordKinds [] before before' → Nested recordKinds before' [] →
      (dispatch fromChars before).thrown = false → (dispatch fromChars before').thrown = false →
        ∃ calls,
          (dispatch fromChars (before ++ element)).calls =
            (dispatch fromChars before).calls ++ calls ∧
          (dispatch fromChars (before' ++ element)).calls =
            (dispatch fromChars before').calls ++ calls

/-- What is added to a channel at the end of a connection. -/
def State.entry (s : State) : String × Connection := (s.connectionId, s.connection)

/-- The entry of a connection is the same, whatever comes before it. -/
def ConnectionsApart (fromChars : FromChars) (f : List Event) : Prop :=
  ∀ before attributes inner after,
    f = before ++
        .startElement "connection" attributes :: (inner ++ .endElement "connection" :: after) →
      ∀ before', Nested recordKinds (before' ++ .startElement "connection" attributes :: inner) [] →
        (dispatch fromChars
          (before ++ .startElement "connection" attributes :: inner)).thrown = false →
        (dispatch fromChars
          (before' ++ .startElement "connection" attributes :: inner)).thrown = false →
          (dispatch fromChars (before ++ .startElement "connection" attributes :: inner)).entry =
            (dispatch fromChars (before' ++ .startElement "connection" attributes :: inner)).entry

section Handlers
variable {fromChars : FromChars} {s : State} {es : List Event}

theorem handle_startChannel (attributes : Attributes) :
    handle fromChars s (.startElement "channel" attributes) =
      { s with
        channelId := s.channelId ++ String.join (values "id" attributes)
        channel.label := (values "label" attributes).getLastD s.channel.label } := by
  rw [handle, startElement, if_pos rfl, foldl_channelAttribute]

/-- The start and the end of a channel apart, no event looks at its id. -/
theorem handle_other {e : Event} (hstart : ∀ attributes, e ≠ .startElement "channel" attributes)
    (hend : e ≠ .endElement "channel") :
    (handle fromChars s e).channelId = s.channelId ∧ (handle fromChars s e).thrown = s.thrown ∧
      (handle fromChars s e).calls = s.calls := by
  cases e with
  | startElement name attributes =>
    have hname : name ≠ "channel" := fun hn => hstart attributes (by rw [hn])
    rw [handle, startElement, if_neg hname]
    split
    · exact ⟨rfl, rfl, rfl⟩
    · split
      · exact ⟨rfl, rfl, rfl⟩
      · split
        · split <;> exact ⟨rfl, rfl, rfl⟩
        · exact ⟨rfl, rfl, rfl⟩
  | endElement name =>
    have hname : name ≠ "channel" := fun hn => hend (by rw [hn])
    rw [handle, endElement, if_neg hname]
    split
    · exact ⟨rfl, rfl, rfl⟩
    · exact ⟨rfl, rfl, rfl⟩
  | characterData data => exact ⟨rfl, rfl, rfl⟩

/-- Only the end of a channel calls the handler, or throws. -/
theorem step_inside {e : Event} (hend : e ≠ .endElement "channel") :
    (step fromChars s e).thrown = s.thrown ∧ (step fromChars s e).calls = s.calls := by
  rw [step, stopping]
  split
  · exact ⟨rfl, rfl⟩
  · by_cases hstart : ∃ attributes, e = .startElement "channel" attributes
    · obtain ⟨attributes, rfl⟩ := hstart
      rw [handle_startChannel]
      exact ⟨rfl, rfl⟩
    · rw [not_exists] at hstart
      exact (handle_other hstart hend).2

theorem run_inside (hes : .endElement "channel" ∉ es) :
    (es.foldl (step fromChars) s).thrown = s.thrown ∧
      (es.foldl (step fromChars) s).calls = s.calls := by
  have hstep : ∀ e ∈ es, ∀ t : State,
      ((step fromChars t e).thrown, (step fromChars t e).calls) = (t.thrown, t.calls) :=
    fun e he t => Prod.ext_iff.2 (step_inside fun hn => hes (hn ▸ he))
  exact Prod.ext_iff.1 (view_foldl (fun t : State => (t.thrown, t.calls)) hstep s)

/-- What the handler is called with at the end of a channel. -/
def delivered (fromChars : FromChars) (s : State) : List (UInt16 × Channel) :=
  match fromChars s.channelId with
  | none => []
  | some channelId => [(channelId, s.channel)]

theorem calls_endChannel (h : s.thrown = false) :
    (step fromChars s (.endElement "channel")).calls = s.calls ++ delivered fromChars s := by
  rw [step_of_not_thrown h, handle, endElement, if_neg (by decide), if_pos rfl, delivered]
  cases fromChars s.channelId with
  | none => rw [List.append_nil]
  | some channelId => rfl

/-- An element of a channel adds what its end delivers. -/
theorem calls_element {before inner : List Event} (attributes : Attributes)
    (hinner : .endElement "channel" ∉ inner) (h : (dispatch fromChars before).thrown = false) :
    (dispatch fromChars (before ++ .startElement "channel" attributes :: inner)).thrown = false ∧
      (dispatch fromChars (before ++
        .startElement "channel" attributes :: (inner ++ [.endElement "channel"]))).calls =
          (dispatch fromChars before).calls ++ delivered fromChars
            (dispatch fromChars (before ++ .startElement "channel" attributes :: inner)) := by
  have hread : .endElement "channel" ∉ Event.startElement "channel" attributes :: inner := by
    simp [hinner]
  have hrun : (dispatch fromChars
        (before ++ .startElement "channel" attributes :: inner)).thrown =
          (dispatch fromChars before).thrown ∧
      (dispatch fromChars (before ++ .startElement "channel" attributes :: inner)).calls =
        (dispatch fromChars before).calls := by
    rw [dispatch_append]
    exact run_inside hread
  have hthrown := hrun.1.trans h
  have hsplit : before ++ .startElement "channel" attributes :: (inner ++ [.endElement "channel"]) =
      (before ++ .startElement "channel" attributes :: inner) ++ [.endElement "channel"] := by simp
  refine ⟨hthrown, ?_⟩
  rw [hsplit, dispatch_append, List.foldl_cons, List.foldl_nil, calls_endChannel hthrown, hrun.2]

theorem connectionsApart {f : List Event} (hf : Nested recordKinds f []) :
    ConnectionsApart fromChars f := by
  intro before attributes inner after hsplit before' hn' ht ht'
  have hparts : f = (before ++ .startElement "connection" attributes :: inner) ++
      .endElement "connection" :: after := by
    rw [hsplit]
    simp
  rw [hparts] at hf
  have hsame := (cursor_element (by decide) hf.of_append ht).trans
    (cursor_element (by decide) hn' ht').symm
  exact Prod.ext (congrArg Cursor.id hsame) (congrArg Cursor.record hsame)

end Handlers

section Ids
variable {fromChars : FromChars} {stack : List String} {s : State} {es : List Event}

/-- Nothing has been thrown, and the end of the channel that is open is not going to. -/
def Fit (fromChars : FromChars) (stack : List String) (s : State) : Prop :=
  s.thrown = false ∧ ("channel" ∈ stack → (fromChars s.channelId).isSome)

/-- Outside the channels there is no id. -/
def Vacant (stack : List String) (s : State) : Prop :=
  s.thrown = false → "channel" ∉ stack → s.channelId = ""

theorem readable_cons {e : Event} :
    Readable fromChars (e :: es) ↔ ReadableTag fromChars e ∧ Readable fromChars es :=
  List.forall_mem_cons

theorem fit_startChannel (hs : Vacant stack s) (hf : s.thrown = false) {attributes : Attributes}
    (he : Legal recordKinds stack (.startElement "channel" attributes)) :
    Vacant ("channel" :: stack) (handle fromChars s (.startElement "channel" attributes)) ∧
      (Fit fromChars ("channel" :: stack)
          (handle fromChars s (.startElement "channel" attributes)) ↔
        Fit fromChars stack s ∧ ReadableTag fromChars (.startElement "channel" attributes)) := by
  have hfresh := (he (by decide)).1
  rw [handle_startChannel, hs hf hfresh, String.empty_append]
  refine ⟨fun _ hnot => absurd List.mem_cons_self hnot, ?_⟩
  simp [Fit, hf, hfresh, ReadableTag]

theorem fit_endChannel (hf : s.thrown = false) (hclosed : "channel" ∉ stack) :
    Vacant stack (handle fromChars s (.endElement "channel")) ∧
      (Fit fromChars stack (handle fromChars s (.endElement "channel")) ↔
        Fit fromChars ("channel" :: stack) s) := by
  rw [handle, endElement, if_neg (by decide), if_pos rfl]
  cases hid : fromChars s.channelId with
  | none =>
    refine ⟨fun h => absurd h (by simp), ?_⟩
    simp [Fit, hid]
  | some id =>
    refine ⟨fun _ _ => rfl, ?_⟩
    simp [Fit, hid, hf, hclosed]

theorem readableTag_of_ne {e : Event} (h : ∀ attributes, e ≠ .startElement "channel" attributes) :
    ReadableTag fromChars e := by
  cases e with
  | startElement name attributes => exact fun hn => absurd (by rw [hn]) (h attributes)
  | endElement name => trivial
  | characterData data => trivial

theorem readable_of_not_mem (h : ∀ attributes, .startElement "channel" attributes ∉ es) :
    Readable fromChars es :=
  fun _ he => readableTag_of_ne fun attributes hn => h attributes (hn ▸ he)

theorem fit_step (hcount : stack.count "channel" ≤ 1) (hs : Vacant stack s) {e : Event}
    (he : Legal recordKinds stack e) :
    Vacant (next stack e) (step fromChars s e) ∧
      (Fit fromChars (next stack e) (step fromChars s e) ↔
        Fit fromChars stack s ∧ ReadableTag fromChars e) := by
  by_cases hf : s.thrown ≠ false
  · rw [step, stopping_of_thrown (Bool.eq_true_of_not_eq_false hf)]
    exact ⟨fun h => absurd h hf, iff_of_false (fun h => hf h.1) fun h => hf h.1.1⟩
  · rw [not_not] at hf
    rw [step_of_not_thrown hf]
    by_cases hstart : ∃ attributes, e = .startElement "channel" attributes
    · obtain ⟨attributes, rfl⟩ := hstart
      exact fit_startChannel hs hf he
    · rw [not_exists] at hstart
      rw [and_iff_left (readableTag_of_ne hstart)]
      by_cases hend : e = .endElement "channel"
      · subst hend
        obtain ⟨rest, rfl⟩ := legal_end he
        exact fit_endChannel hf (not_mem_of_count hcount)
      · have hother : (handle fromChars s e).channelId = s.channelId ∧
            (handle fromChars s e).thrown = s.thrown ∧ (handle fromChars s e).calls = s.calls :=
          handle_other hstart hend
        rw [Vacant, Fit, Fit, hother.1, hother.2.1, mem_next_iff he hstart hend]
        exact ⟨hs, Iff.rfl⟩

theorem fit_run (hcount : stack.count "channel" ≤ 1) (hs : Vacant stack s)
    (hn : Nested recordKinds es stack) :
    Vacant (es.foldl next stack) (es.foldl (step fromChars) s) ∧
      (Fit fromChars (es.foldl next stack) (es.foldl (step fromChars) s) ↔
        Fit fromChars stack s ∧ Readable fromChars es) := by
  induction es generalizing stack s with
  | nil => exact ⟨hs, by simp [Readable]⟩
  | cons e es ih =>
    have hstep : Vacant (next stack e) (step fromChars s e) ∧
        (Fit fromChars (next stack e) (step fromChars s e) ↔
          Fit fromChars stack s ∧ ReadableTag fromChars e) := fit_step hcount hs hn.1
    obtain ⟨hnext, hiff⟩ := hstep
    obtain ⟨hlast, hrun⟩ := ih (count_next (by decide) hn.1 hcount) hnext hn.2
    refine ⟨hlast, ?_⟩
    rw [List.foldl_cons, List.foldl_cons, hrun, hiff, readable_cons, and_assoc]

/-- The reader gets through exactly if it can convert the id of every channel. -/
theorem fit_dispatch (hn : Nested recordKinds es []) :
    Vacant (es.foldl next []) (dispatch fromChars es) ∧
      (Fit fromChars (es.foldl next []) (dispatch fromChars es) ↔ Readable fromChars es) := by
  have hs : Vacant [] {} := fun _ _ => rfl
  have hfit : Fit fromChars [] {} := ⟨rfl, fun h => absurd h List.not_mem_nil⟩
  have hcount : ([] : List String).count "channel" ≤ 1 := Nat.zero_le 1
  obtain ⟨hvacant, hiff⟩ := fit_run hcount hs hn
  rw [and_iff_right hfit] at hiff
  exact ⟨hvacant, hiff⟩

end Ids

section Apart
variable {fromChars : FromChars} {stack : List String} {es es' : List Event} {a b : State}

theorem startElement_channel {name : String} {attributes : Attributes} {s : State}
    (hchannel : name ≠ "channel") (hproduct : name ≠ "product") :
    (startElement s name attributes).channel = s.channel := by
  rw [startElement, if_neg hchannel, if_neg hproduct]
  split
  · rfl
  · split
    · split <;> rfl
    · rfl

theorem startProduct_channel (s : State) (attributes : Attributes) :
    (startElement s "product" attributes).channel =
      attributes.foldl productAttribute s.channel := rfl

theorem endElement_channel {name : String} {s : State} (hchannel : name ≠ "channel")
    (hconnection : name ≠ "connection") : (endElement fromChars s name).channel = s.channel := by
  rw [endElement, if_neg hconnection, if_neg hchannel]

theorem endConnection_channel {s : State} : (endElement fromChars s "connection").channel =
    s.channel.tryEmplace s.connectionId s.connection := rfl

theorem endChannel_channel {s : State}
    (h : (endElement fromChars s "channel").thrown = false) :
    (endElement fromChars s "channel").channel = {} := by
  rw [endElement, if_neg (by decide), if_pos rfl] at h ⊢
  cases hid : fromChars s.channelId with
  | none =>
    rw [hid] at h
    cases h
  | some id => rfl

/-- Outside the channels, the pending channel is the same. -/
def SamePending (stack : List String) (a b : State) : Prop :=
  a.thrown = false → b.thrown = false → "channel" ∉ stack → a.channel = b.channel

/-- A product that does not intrude adds the same in both runs. -/
theorem samePending_product {attributes attributes' : Attributes}
    (hC : ¬ Intrudes stack (.startElement "product" attributes))
    (hkeys : attributes'.map Prod.fst = attributes.map Prod.fst)
    (hinside : Inside recordKinds stack (.startElement "product" attributes) ∨
      attributes' = attributes) (hout : "channel" ∉ stack) (channel : Channel) :
    attributes.foldl productAttribute channel = attributes'.foldl productAttribute channel := by
  by_cases hcode : values "code" attributes = []
  · have hcode' : values "code" attributes' = [] := by
      rw [values_eq_nil_iff, hkeys, ← values_eq_nil_iff]
      exact hcode
    rw [foldl_productAttribute_of_nil attributes channel hcode,
      foldl_productAttribute_of_nil attributes' channel hcode']
  · -- it is in none of the records
    have hnone : ¬ Inside recordKinds stack (.startElement "product" attributes) := by
      intro hin
      obtain ⟨kind, hkind, hopen⟩ := hin
      have hne : kind ≠ "product" := by
        intro heq
        subst heq
        exact absurd hkind (by decide)
      have hmem : kind ∈ stack :=
        hopen.elim (fun h => h) fun h => (List.mem_cons.1 h).resolve_left hne
      exact hC ⟨rfl, hcode, hout, kind, hkind, hmem⟩
    rw [hinside.resolve_left hnone]

/-- The pending channel does not depend on what is written inside the records, as long as no event
intrudes. -/
theorem SamePending.handle {e e' : Event} (he : Legal recordKinds stack e)
    (hC : ¬ Intrudes stack e) (htag : SameTag e e') (hinside : Inside recordKinds stack e ∨ e' = e)
    (hab : "channel" ∉ stack → a.channel = b.channel) :
    SamePending (next stack e) (ConfigReader.handle fromChars a e)
      (ConfigReader.handle fromChars b e') := by
  intro ha hb hnot
  cases htag with
  | startElement name hkeys =>
    rw [next, List.mem_cons, not_or] at hnot
    have hname : name ≠ "channel" := Ne.symm hnot.1
    have hpending := hab hnot.2
    rw [ConfigReader.handle, ConfigReader.handle]
    by_cases hproduct : name = "product"
    · subst hproduct
      have hsame := hinside.imp_right fun h => (Event.startElement.inj h).2
      rw [startProduct_channel, startProduct_channel, hpending,
        samePending_product hC hkeys hsame hnot.2]
    · rw [startElement_channel hname hproduct, startElement_channel hname hproduct]
      exact hpending
  | endElement name =>
    obtain ⟨rest, rfl⟩ := legal_end he
    by_cases hname : name = "channel"
    · -- the end of a channel leaves an empty one in both runs
      subst hname
      exact (endChannel_channel ha).trans (endChannel_channel hb).symm
    · have hout : "channel" ∉ name :: rest := by
        rw [List.mem_cons, not_or]
        exact ⟨Ne.symm hname, hnot⟩
      have hconnection : name ≠ "connection" := fun hn => hC ⟨hn, hout⟩
      rw [ConfigReader.handle, ConfigReader.handle, endElement_channel hname hconnection,
        endElement_channel hname hconnection]
      exact hab hout
  | characterData data data' => exact hab hnot

theorem SamePending.run (h : Alike recordKinds stack es es') (hes : Nested recordKinds es stack)
    (hes' : Nested recordKinds es' stack) (hC : Along next (fun s e => ¬ Intrudes s e) es stack)
    (hab : SamePending stack a b) :
    SamePending (es.foldl next stack) (es.foldl (step fromChars) a)
      (es'.foldl (step fromChars) b) := by
  refine h.run SamePending ?_ hes hes' hC hab
  intro stack a b e e' he he' hC htag hinside hab ha hb
  have ha' := not_thrown_of_step ha
  have hb' := not_thrown_of_step hb
  have hstep : SamePending (next stack e) (ConfigReader.handle fromChars a e)
      (ConfigReader.handle fromChars b e') :=
    SamePending.handle he hC htag hinside (hab ha' hb')
  rw [← step_of_not_thrown ha', ← step_of_not_thrown hb'] at hstep
  exact hstep ha hb

/-- What decides about the calls: the channel, and the connection where it matters. -/
structure Agree (withCursor : Prop) (a b : State) : Prop where
  channelId : a.channelId = b.channelId
  channel : a.channel = b.channel
  thrown : a.thrown = b.thrown
  cursor : withCursor → a.cursor = b.cursor

/-- One event in both runs. -/
theorem Agree.handle {withCursor : Prop} (h : Agree withCursor a b) {e : Event}
    (hend : e ≠ .endElement "channel") (hc : withCursor ∨ e ≠ .endElement "connection") :
    Agree withCursor (ConfigReader.handle fromChars a e) (ConfigReader.handle fromChars b e) := by
  have hcursor : withCursor → (ConfigReader.handle fromChars a e).cursor =
      (ConfigReader.handle fromChars b e).cursor := by
    intro hw
    rw [cursor_handle, cursor_handle, h.cursor hw]
  by_cases hstart : ∃ attributes, e = .startElement "channel" attributes
  · obtain ⟨attributes, rfl⟩ := hstart
    rw [handle_startChannel, handle_startChannel] at hcursor ⊢
    exact ⟨by rw [h.channelId], by rw [h.channel], h.thrown, hcursor⟩
  · rw [not_exists] at hstart
    have hother : ∀ s : State, (ConfigReader.handle fromChars s e).channelId = s.channelId ∧
        (ConfigReader.handle fromChars s e).thrown = s.thrown ∧
        (ConfigReader.handle fromChars s e).calls = s.calls := fun s => handle_other hstart hend
    refine ⟨?_, ?_, ?_, hcursor⟩
    · rw [(hother a).1, (hother b).1]
      exact h.channelId
    · cases e with
      | startElement name attributes =>
        have hchannel : name ≠ "channel" := fun hn => hstart attributes (by rw [hn])
        rw [ConfigReader.handle, ConfigReader.handle]
        by_cases hproduct : name = "product"
        · subst hproduct
          rw [startProduct_channel, startProduct_channel, h.channel]
        · rw [startElement_channel hchannel hproduct, startElement_channel hchannel hproduct]
          exact h.channel
      | endElement name =>
        have hchannel : name ≠ "channel" := fun hn => hend (by rw [hn])
        rw [ConfigReader.handle, ConfigReader.handle]
        by_cases hconnection : name = "connection"
        · subst hconnection
          have hsame := h.cursor (hc.resolve_right fun hne => hne rfl)
          have hid : a.connectionId = b.connectionId := congrArg Cursor.id hsame
          have hrecord : a.connection = b.connection := congrArg Cursor.record hsame
          rw [endConnection_channel, endConnection_channel, h.channel, hid, hrecord]
        · rw [endElement_channel hchannel hconnection, endElement_channel hchannel hconnection]
          exact h.channel
      | characterData data => exact h.channel
    · rw [(hother a).2.1, (hother b).2.1]
      exact h.thrown

/-- In an element of a channel the runs agree up to its end. -/
theorem Agree.run {withCursor : Prop} (h : Agree withCursor a b)
    (hend : .endElement "channel" ∉ es) (hc : withCursor ∨ .endElement "connection" ∉ es) :
    Agree withCursor (es.foldl (step fromChars) a) (es.foldl (step fromChars) b) := by
  induction es generalizing a b with
  | nil => exact h
  | cons e es ih =>
    rw [List.mem_cons, not_or] at hend
    rw [List.mem_cons, not_or] at hc
    refine ih ?_ hend.2 (hc.imp_right And.right)
    cases ha : a.thrown with
    | true =>
      rw [step, stopping_of_thrown ha, stopping_of_thrown (h.thrown.symm.trans ha)]
      exact h
    | false =>
      rw [step, stopping_of_not_thrown ha, stopping_of_not_thrown (h.thrown.symm.trans ha)]
      exact h.handle (Ne.symm hend.1) (hc.imp_right fun h => Ne.symm h.1)

theorem Agree.delivered {withCursor : Prop} (h : Agree withCursor a b) :
    delivered fromChars a = delivered fromChars b := by
  rw [ConfigReader.delivered, ConfigReader.delivered, h.channelId, h.channel]

/-- The end of a channel delivers nothing, if its id cannot be converted. -/
theorem delivered_eq_nil {before inner : List Event} {attributes : Attributes}
    (hn : Nested recordKinds (before ++ .startElement "channel" attributes :: inner) [])
    (ht : (dispatch fromChars
      (before ++ .startElement "channel" attributes :: inner)).thrown = false)
    (hread : ¬ ReadableTag fromChars (.startElement "channel" attributes)) :
    delivered fromChars (dispatch fromChars
      (before ++ .startElement "channel" attributes :: inner)) = [] := by
  have hunread : ¬ Readable fromChars (before ++ .startElement "channel" attributes :: inner) :=
    fun h => hread (h _ (by simp))
  rw [← (fit_dispatch hn).2, Fit, and_iff_right ht] at hunread
  rw [Classical.not_imp, Option.not_isSome_iff_eq_none] at hunread
  rw [delivered, hunread.2]

/-- Where a channel starts, the runs agree up to the connections around it. -/
theorem agree_before {before before' : List Event} (halike : Alike recordKinds [] before before')
    (hn : Nested recordKinds before []) (hn' : Nested recordKinds before' [])
    (hclosed : "channel" ∉ before.foldl next [])
    (ht : (dispatch fromChars before).thrown = false)
    (ht' : (dispatch fromChars before').thrown = false)
    (hC : Along next (fun s e => ¬ Intrudes s e) before []) :
    Agree ("connection" ∉ before.foldl next []) (dispatch fromChars before)
      (dispatch fromChars before') where
  channelId := by
    have hclosed' : "channel" ∉ before'.foldl next [] := by rwa [halike.next_eq]
    rw [(fit_dispatch hn).1 ht hclosed, (fit_dispatch hn').1 ht' hclosed']
  channel := SamePending.run halike hn hn' hC (fun _ _ _ => rfl) ht ht' hclosed
  thrown := ht.trans ht'.symm
  cursor := by
    intro hout
    have hout' : "connection" ∉ before'.foldl next [] := by rwa [halike.next_eq]
    have hstart := RecordReader.run_closed (R := reader) (by decide) hn hout
    have hstart' := RecordReader.run_closed (R := reader) (by decide) hn' hout'
    exact ((cursor_run ht).2.trans hstart).trans ((cursor_run ht').2.trans hstart').symm

theorem channelsApart_of_undisturbed {f : List Event} (hf : Nested recordKinds f [])
    (h : Undisturbed fromChars f) : ChannelsApart fromChars f := by
  intro before element after hsplit helement before' halike hn' ht ht'
  obtain ⟨attributes, inner, rfl, hinner⟩ := helement
  have hparts : f = (before ++ .startElement "channel" attributes :: inner) ++
      .endElement "channel" :: after := by
    rw [hsplit]
    simp
  rw [hparts] at hf
  have hin := hf.of_append
  obtain ⟨hn, hrest⟩ := nested_append.1 hin
  have hin' : Nested recordKinds (before' ++ .startElement "channel" attributes :: inner) [] := by
    rw [nested_append, halike.next_eq]
    exact ⟨hn', hrest⟩
  have hclosed := (hrest.1 (by decide)).1
  obtain ⟨hthrown, hcalls⟩ := calls_element attributes hinner ht
  obtain ⟨hthrown', hcalls'⟩ := calls_element attributes hinner ht'
  refine ⟨_, hcalls, ?_⟩
  rw [hcalls']
  congr 1
  by_cases hread : ReadableTag fromChars (.startElement "channel" attributes)
  · have hreadable : Readable fromChars before :=
      (fit_dispatch hn).2.1 ⟨ht, fun hmem => absurd hmem hclosed⟩
    have hC : Along next (fun s e => ¬ Intrudes s e) before [] := by
      rw [along_iff]
      intro xs e ys he
      refine h xs e ys attributes (inner ++ .endElement "channel" :: after) ?_ ?_
      · rw [hparts, he]
        simp
      · have hlast : xs ++ e :: (ys ++ [.startElement "channel" attributes]) =
            before ++ [.startElement "channel" attributes] := by rw [he]; simp
        rw [hlast]
        exact List.forall_mem_append.2 ⟨hreadable, List.forall_mem_singleton.2 hread⟩
    have hagree := agree_before halike hn hn' hclosed ht ht' hC
    have hend : .endElement "channel" ∉ Event.startElement "channel" attributes :: inner := by
      simp [hinner]
    rw [dispatch_append, dispatch_append]
    refine (hagree.run hend ?_).delivered.symm
    by_cases hout : "connection" ∉ before.foldl next []
    · exact .inl hout
    · -- the connection around the channel does not end inside it
      have hinside : Nested recordKinds inner ([] ++ "channel" :: before.foldl next []) := hrest.2
      have houter : .endElement "connection" ∉ inner :=
        hinside.outer (by decide) (not_not.1 hout) List.not_mem_nil hinner
      exact .inr (by simp [houter])
  · rw [delivered_eq_nil hin hthrown hread, delivered_eq_nil hin' hthrown' hread]

end Apart

section Marks
variable {fromChars : FromChars} {stack : List String} {es : List Event} {z : String} {s : State}

/-- Every connection gets the same id, and so do the products inside the records. -/
def mark (z : String) (stack : List String) : Event → Event
  | .startElement name attributes =>
    if name = "connection" then .startElement name (recode "id" z attributes)
    else if name = "product" ∧ ∃ kind ∈ recordKinds, kind ∈ stack then
      .startElement name (recode "code" z attributes)
    else .startElement name attributes
  | e => e

theorem sameTag_mark (stack : List String) (e : Event) : SameTag e (mark z stack e) := by
  cases e with
  | startElement name attributes =>
    rw [mark]
    split
    · exact .startElement name map_fst_recode
    · split
      · exact .startElement name map_fst_recode
      · exact .refl _
  | endElement name => exact .refl _
  | characterData data => exact .refl _

theorem inside_mark (stack : List String) (e : Event) :
    Inside recordKinds stack e ∨ mark z stack e = e := by
  cases e with
  | startElement name attributes =>
    rw [mark]
    split
    · next hname =>
      subst hname
      exact .inl ⟨"connection", by decide, .inr List.mem_cons_self⟩
    · split
      · next hproduct =>
        obtain ⟨hname, kind, hkind, hopen⟩ := hproduct
        exact .inl ⟨kind, hkind, .inl hopen⟩
      · exact .inr rfl
  | endElement name => exact .inr rfl
  | characterData data => exact .inr rfl

theorem legal_mark (hz : z ≠ "") (stack : List String) (e : Event)
    (he : Legal recordKinds stack e) : Legal recordKinds stack (mark z stack e) := by
  cases e with
  | startElement name attributes =>
    rw [mark]
    split
    · intro hk
      obtain ⟨hfresh, hid, hne⟩ := he hk
      refine ⟨hfresh, ?_, ?_⟩
      · rw [values_recode]
        simp [hid]
      · exact fun hmem => hz (mem_values_recode hmem).symm
    · split
      · next hproduct =>
        intro hk
        rw [hproduct.1] at hk
        exact absurd hk (by decide)
      · exact he
  | endElement name => exact he
  | characterData data => exact he

theorem readableTag_mark (stack : List String) (e : Event) :
    ReadableTag fromChars (mark z stack e) ↔ ReadableTag fromChars e := by
  cases e with
  | startElement name attributes =>
    rw [mark]
    split
    · next hname =>
      subst hname
      exact iff_of_true (fun h => absurd h (by decide)) fun h => absurd h (by decide)
    · split
      · next hproduct =>
        obtain ⟨rfl, hkind⟩ := hproduct
        exact iff_of_true (fun h => absurd h (by decide)) fun h => absurd h (by decide)
      · rfl
  | endElement name => rfl
  | characterData data => rfl

theorem readable_mark (stack : List String) :
    Readable fromChars (replace (mark z) stack es) ↔ Readable fromChars es := by
  induction es generalizing stack with
  | nil => rfl
  | cons e es ih => rw [replace, readable_cons, readable_cons, readableTag_mark, ih]

/-- The mark is among the products or the connections of the channel. -/
def Holds (z : String) (channel : Channel) : Prop :=
  z ∈ channel.products ∨ z ∈ channel.connections.map Prod.fst

theorem holds_productAttribute (attributes : Attributes) {channel : Channel}
    (h : Holds z channel) : Holds z (attributes.foldl productAttribute channel) := by
  cases h with
  | inl h => exact .inl ((mem_foldl_productAttribute attributes channel z).2 (.inl h))
  | inr h =>
    rw [Holds, foldl_productAttribute_connections]
    exact .inr h

theorem holds_tryEmplace {channel : Channel} (id : String) (connection : Connection)
    (h : Holds z channel ∨ id = z) : Holds z (channel.tryEmplace id connection) := by
  rw [Channel.tryEmplace]
  split
  · next hin =>
    cases h with
    | inl h => exact h
    | inr h => exact .inr (h ▸ hin)
  · cases h with
    | inl h => exact h.imp_right fun h => by simp [h]
    | inr h => exact .inr (by simp [h])

theorem holds_handle {e : Event} (hend : e ≠ .endElement "channel") (h : Holds z s.channel) :
    Holds z (handle fromChars s e).channel := by
  cases e with
  | startElement name attributes =>
    by_cases hchannel : name = "channel"
    · subst hchannel
      rw [handle_startChannel]
      exact h
    · by_cases hproduct : name = "product"
      · subst hproduct
        exact holds_productAttribute attributes h
      · rw [handle, startElement_channel hchannel hproduct]
        exact h
  | endElement name =>
    have hchannel : name ≠ "channel" := fun hn => hend (by rw [hn])
    by_cases hconnection : name = "connection"
    · subst hconnection
      exact holds_tryEmplace s.connectionId s.connection (.inl h)
    · rw [handle, endElement_channel hchannel hconnection]
      exact h
  | characterData data => exact h

/-- The pending channel only grows up to the end of a channel. -/
theorem holds_run (hes : .endElement "channel" ∉ es) (h : Holds z s.channel) :
    Holds z (es.foldl (step fromChars) s).channel := by
  induction es generalizing s with
  | nil => exact h
  | cons e es ih =>
    rw [List.mem_cons, not_or] at hes
    refine ih hes.2 ?_
    rw [step, stopping]
    split
    · exact h
    · exact holds_handle (Ne.symm hes.1) h

/-- A connection that is open has the mark for its id. -/
theorem marked_step {e : Event} (he : Legal recordKinds stack e)
    (hcount : stack.count "connection" ≤ 1) (hs : "connection" ∈ stack → s.connectionId = z)
    (hopen : "connection" ∈ next stack e) :
    (handle fromChars s (mark z stack e)).connectionId = z := by
  change (handle fromChars s (mark z stack e)).cursor.id = z
  rw [cursor_handle]
  cases e with
  | startElement name attributes =>
    by_cases hname : name = "connection"
    · subst hname
      have hid := (he (by decide)).2.1
      have hne : values "id" (recode "id" z attributes) ≠ [] := by
        rw [values_recode]
        simp [hid]
      exact mem_values_recode (foldl_connectionAttribute_mem _ hne s.connectionId)
    · have hmem := (List.mem_cons.1 hopen).resolve_left (Ne.symm hname)
      rw [mark, if_neg hname]
      split
      · exact (reader.startElement_id hname s.cursor _).trans (hs hmem)
      · exact (reader.startElement_id hname s.cursor _).trans (hs hmem)
  | endElement name =>
    obtain ⟨rest, rfl⟩ := legal_end he
    by_cases hname : name = "connection"
    · subst hname
      exact absurd hopen (not_mem_of_count hcount)
    · exact (reader.endElement_id hname s.cursor).trans (hs (List.mem_cons_of_mem name hopen))
  | characterData data => exact hs hopen

theorem marked_run (hn : Nested recordKinds es stack) (hcount : stack.count "connection" ≤ 1)
    (hs : "connection" ∈ stack → s.connectionId = z)
    (ht : ((replace (mark z) stack es).foldl (step fromChars) s).thrown = false)
    (hopen : "connection" ∈ es.foldl next stack) :
    ((replace (mark z) stack es).foldl (step fromChars) s).connectionId = z := by
  induction es generalizing stack s with
  | nil => exact hs hopen
  | cons e es ih =>
    rw [replace, List.foldl_cons] at ht ⊢
    have hnext : "connection" ∈ next stack e →
        (step fromChars s (mark z stack e)).connectionId = z := by
      rw [step_of_not_thrown (not_thrown_of_step (cursor_run ht).1)]
      exact marked_step hn.1 hcount hs
    exact ih hn.2 (count_next (by decide) hn.1 hcount) hnext ht hopen

/-- An intruding event leaves the mark. -/
theorem holds_intruding {e : Event} (he : Legal recordKinds stack e) (h : Intrudes stack e)
    (hs : "connection" ∈ stack → s.connectionId = z) :
    Holds z (handle fromChars s (mark z stack e)).channel := by
  cases e with
  | startElement name attributes =>
    obtain ⟨rfl, hcode, hout, hkind⟩ := h
    rw [mark, if_neg (by decide), if_pos ⟨rfl, hkind⟩, handle, startProduct_channel]
    refine .inl ((mem_foldl_productAttribute _ s.channel z).2 (.inr ?_))
    rw [values_recode]
    obtain ⟨code, hmem⟩ := List.exists_mem_of_ne_nil _ hcode
    exact List.mem_map.2 ⟨code, hmem, rfl⟩
  | endElement name =>
    obtain ⟨rfl, hout⟩ := h
    obtain ⟨rest, rfl⟩ := legal_end he
    exact holds_tryEmplace s.connectionId s.connection (.inr (hs List.mem_cons_self))
  | characterData data => exact absurd h id

theorem Intrudes.closed {e : Event} (h : Intrudes stack e) :
    "channel" ∉ stack ∧ ∀ attributes, e ≠ .startElement "channel" attributes := by
  cases e with
  | startElement name attributes =>
    obtain ⟨rfl, hcode, hout, hkind⟩ := h
    exact ⟨hout, fun other => by simp⟩
  | endElement name => exact ⟨h.2, fun _ => Event.noConfusion⟩
  | characterData data => exact absurd h id

/-- The mark stays in the pending channel up to the next channel. -/
theorem holds_before {before after : List Event} {e : Event}
    (hn : Nested recordKinds (before ++ e :: after) []) (h : Intrudes (before.foldl next []) e)
    (hafter : ∀ attributes, .startElement "channel" attributes ∉ after)
    (ht : (dispatch fromChars (replace (mark z) [] (before ++ e :: after))).thrown = false) :
    Holds z (dispatch fromChars (replace (mark z) [] (before ++ e :: after))).channel := by
  obtain ⟨hbefore, hrest⟩ := nested_append.1 hn
  obtain ⟨hout, hstart⟩ := h.closed
  have hend : .endElement "channel" ∉ e :: after := by
    refine (hrest.closed hout ?_).2
    intro attributes
    rw [List.mem_cons, not_or]
    exact ⟨Ne.symm (hstart attributes), hafter attributes⟩
  rw [List.mem_cons, not_or] at hend
  rw [replace_append, replace, dispatch_append, List.foldl_cons] at ht ⊢
  have hthrown := not_thrown_of_step (cursor_run ht).1
  have hid : "connection" ∈ before.foldl next [] →
      (dispatch fromChars (replace (mark z) [] before)).connectionId = z :=
    marked_run hbefore (Nat.zero_le 1) (fun hmem => absurd hmem List.not_mem_nil) hthrown
  refine holds_run (endElement_mem_replace sameTag_mark hend.2) ?_
  rw [step_of_not_thrown hthrown]
  exact holds_intruding hrest.1 h hid

theorem exists_fresh (used : List String) : ∃ z, z ∉ used := by
  obtain ⟨z, hz⟩ := Infinite.exists_notMem_finset used.toFinset
  exact ⟨z, fun hmem => hz (List.mem_toFinset.2 hmem)⟩

/-- The end of a channel that is read calls the handler. -/
theorem calls_readable {before inner : List Event} {attributes : Attributes}
    (hn : Nested recordKinds (before ++ .startElement "channel" attributes :: inner) [])
    (hread : Readable fromChars (before ++ .startElement "channel" attributes :: inner))
    (hinner : .endElement "channel" ∉ inner) :
    (dispatch fromChars before).thrown = false ∧
      ∃ id, (dispatch fromChars (before ++
        .startElement "channel" attributes :: (inner ++ [.endElement "channel"]))).calls =
          (dispatch fromChars before).calls ++ [(id, (dispatch fromChars
            (before ++ .startElement "channel" attributes :: inner)).channel)] := by
  obtain ⟨hbefore, hrest⟩ := nested_append.1 hn
  have hthrown := ((fit_dispatch hbefore).2.2 (List.forall_mem_append.1 hread).1).1
  have hopen : "channel" ∈
      (before ++ .startElement "channel" attributes :: inner).foldl next [] := by
    rw [List.foldl_append]
    exact (Nested.remains (by decide) hrest.2 List.mem_cons_self hinner).1
  obtain ⟨id, hid⟩ := Option.isSome_iff_exists.1 (((fit_dispatch hn).2.2 hread).2 hopen)
  refine ⟨hthrown, id, ?_⟩
  rw [(calls_element attributes hinner hthrown).2, delivered, hid]

/-- The channel that is read next shows what the intruding event depends on. -/
theorem not_intrudes_of_apart {before between inner after : List Event} {e : Event}
    {attributes : Attributes} (h : ChannelsApart fromChars ((before ++ e :: between) ++
      .startElement "channel" attributes :: (inner ++ [.endElement "channel"]) ++ after))
    (hn : Nested recordKinds ((before ++ e :: between) ++
      .startElement "channel" attributes :: inner) [])
    (hread : Readable fromChars ((before ++ e :: between) ++
      .startElement "channel" attributes :: inner))
    (hinner : .endElement "channel" ∉ inner)
    (hbetween : ∀ attributes, .startElement "channel" attributes ∉ between) :
    ¬ Intrudes (before.foldl next []) e := by
  intro hintrudes
  obtain ⟨hbefore, hrest⟩ := nested_append.1 hn
  obtain ⟨hreadBefore, hreadRest⟩ := List.forall_mem_append.1 hread
  obtain ⟨hthrown, id, hid⟩ := calls_readable hn hread hinner
  -- a mark that is not in the record that is delivered
  obtain ⟨z, hz⟩ := exists_fresh ("" :: ((dispatch fromChars ((before ++ e :: between) ++
      .startElement "channel" attributes :: inner)).channel.products ++
    (dispatch fromChars ((before ++ e :: between) ++
      .startElement "channel" attributes :: inner)).channel.connections.map Prod.fst))
  rw [List.mem_cons, List.mem_append, not_or] at hz
  have halike := alike_replace (sameTag_mark (z := z)) inside_mark [] (before ++ e :: between)
  have hmarked := nested_replace sameTag_mark (legal_mark hz.1) hbefore
  have hn' : Nested recordKinds (replace (mark z) [] (before ++ e :: between) ++
      .startElement "channel" attributes :: inner) [] := by
    rw [nested_append, halike.next_eq]
    exact ⟨hmarked, hrest⟩
  have hread' : Readable fromChars (replace (mark z) [] (before ++ e :: between) ++
      .startElement "channel" attributes :: inner) :=
    List.forall_mem_append.2 ⟨(readable_mark []).2 hreadBefore, hreadRest⟩
  obtain ⟨hthrown', id', hid'⟩ := calls_readable hn' hread' hinner
  obtain ⟨calls, hcalls, hcalls'⟩ :=
    h _ _ after rfl ⟨attributes, inner, rfl, hinner⟩ _ halike hmarked hthrown hthrown'
  have hsame := (List.append_cancel_left (hid.symm.trans hcalls)).trans
    (List.append_cancel_left (hid'.symm.trans hcalls')).symm
  have hchannel := congrArg Prod.snd (List.singleton_inj.1 hsame)
  dsimp only at hchannel
  -- but it is in the one after the marked events
  have hend : .endElement "channel" ∉ Event.startElement "channel" attributes :: inner := by
    simp [hinner]
  have hholds : Holds z (dispatch fromChars (replace (mark z) [] (before ++ e :: between) ++
      .startElement "channel" attributes :: inner)).channel := by
    rw [dispatch_append]
    exact holds_run hend (holds_before hbefore hintrudes hbetween hthrown')
  rw [← hchannel] at hholds
  exact hz.2 hholds

/-- What is written inside the records before a channel never changes what is delivered for it,
exactly if nothing intrudes. -/
theorem channelsApart_iff {f : List Event} (hf : Admissible recordKinds f) :
    ChannelsApart fromChars f ↔ Undisturbed fromChars f := by
  refine ⟨?_, channelsApart_of_undisturbed hf.1⟩
  intro h before e between attributes after hsplit hread
  have hmem : .startElement "channel" attributes ∈
      between ++ [.startElement "channel" attributes] := by simp
  obtain ⟨between', first, skipped, heq, hbetween⟩ := exists_first_start hmem
  -- the first channel after the event is read as well, up to its end
  have hparts : f = (before ++ e :: between') ++
      .startElement "channel" first :: (skipped ++ after) := by
    have hafter : between ++ .startElement "channel" attributes :: after =
        (between ++ [.startElement "channel" attributes]) ++ after := by simp
    rw [hsplit, hafter, heq]
    simp
  obtain ⟨hn, hclosed⟩ := hf
  rw [hparts] at hn hclosed
  have hrest := (nested_append.1 hn).2
  rw [List.foldl_append, List.foldl_cons] at hclosed
  have hend : "channel" ∉ (skipped ++ after).foldl next
      (next ((before ++ e :: between').foldl next []) (.startElement "channel" first)) := by
    rw [hclosed]
    exact List.not_mem_nil
  obtain ⟨inner, rest, hinner, hnoend⟩ :=
    Nested.exists_end (by decide) hrest.2 List.mem_cons_self hend
  have hin : Nested recordKinds inner (next ((before ++ e :: between').foldl next [])
      (.startElement "channel" first)) := by
    have hrest' := hrest.2
    rw [hinner] at hrest'
    exact Nested.of_append hrest'
  have hreadInner : Readable fromChars inner :=
    readable_of_not_mem (Nested.remains (by decide) hin List.mem_cons_self hnoend).2
  have hreadFirst : Readable fromChars
      ((before ++ e :: between') ++ .startElement "channel" first :: skipped) := by
    rw [heq] at hread
    simpa using hread
  obtain ⟨hreadBefore, hreadRest⟩ := List.forall_mem_append.1 hreadFirst
  have hreadAll : Readable fromChars
      ((before ++ e :: between') ++ .startElement "channel" first :: inner) :=
    List.forall_mem_append.2 ⟨hreadBefore,
      readable_cons.2 ⟨(readable_cons.1 hreadRest).1, hreadInner⟩⟩
  have happart : ChannelsApart fromChars ((before ++ e :: between') ++
      .startElement "channel" first :: (inner ++ [.endElement "channel"]) ++ rest) := by
    rw [hparts, hinner] at h
    simpa using h
  exact not_intrudes_of_apart happart (nested_append.2 ⟨(nested_append.1 hn).1, hrest.1, hin⟩)
    hreadAll hnoend hbetween

end Marks

end RoqCme.Mdp.ConfigReader
