import RoqCme.Lib.RecordReader

/-! The channels of the market data configuration (`protocol/mdp/config_reader`). The parser calls
the handler for each tag and for each piece of text. -/
namespace RoqCme.Mdp.ConfigReader
open RoqCme.Lib RoqCme.Lib.Xml

/-- `ConfigReader::Connection` -/
structure Connection where
  type : String := ""
  feedType : String := ""
  protocol : String := ""
  ip : String := ""
  hostIps : List String := []
  port : String := ""
  feed : String := ""
  deriving DecidableEq, Repr

/-- `ConfigReader::Channel`, the sets in the order of insertion. -/
structure Channel where
  label : String := ""
  products : List String := []
  connections : List (String × Connection) := []
  deriving DecidableEq, Repr

inductive ConnectionField where
  | undefined | type | protocol | ip | hostIp | port | feed
  deriving DecidableEq, Repr

/-- `MyHandler`, with the calls of the other handler so far. Nothing is read after an exception. -/
structure State where
  channelId : String := ""
  channel : Channel := {}
  connectionId : String := ""
  connectionField : ConnectionField := .undefined
  connection : Connection := {}
  calls : List (UInt16 × Channel) := []
  thrown : Bool := false
  deriving DecidableEq, Repr

def Channel.emplaceProduct (channel : Channel) (product : String) : Channel :=
  if product ∈ channel.products then channel
  else { channel with products := channel.products ++ [product] }

/-- `connections.try_emplace` -/
def Channel.tryEmplace (channel : Channel) (id : String) (connection : Connection) : Channel :=
  if id ∈ channel.connections.map Prod.fst then channel
  else { channel with connections := channel.connections ++ [(id, connection)] }

/-! The loops over the attributes. -/

def channelAttribute (s : State) (a : String × String) : State :=
  if a.1 = "id" then { s with channelId := s.channelId ++ a.2 }
  else if a.1 = "label" then { s with channel.label := a.2 }
  else s

def productAttribute (channel : Channel) (a : String × String) : Channel :=
  if a.1 = "code" then channel.emplaceProduct a.2 else channel

def connectionAttribute (connectionId : String) (a : String × String) : String :=
  if a.1 = "id" then a.2 else connectionId

def typeAttribute (connection : Connection) (a : String × String) : Connection :=
  if a.1 = "feed-type" then { connection with feedType := a.2 } else connection

/-- The children of a connection. -/
def ConnectionField.ofName (name : String) : Option ConnectionField :=
  if name = "type" then some .type
  else if name = "protocol" then some .protocol
  else if name = "ip" then some .ip
  else if name = "host-ip" then some .hostIp
  else if name = "port" then some .port
  else if name = "feed" then some .feed
  else none -- log::warn

def Connection.begin (connection : Connection) (attributes : Attributes) :
    ConnectionField → Connection
  | .type => attributes.foldl typeAttribute connection
  | _ => connection

/-- The `StartElement` handler. -/
def startElement (s : State) (name : String) (attributes : Attributes) : State :=
  if name = "channel" then attributes.foldl channelAttribute s
  else if name = "product" then
    { s with channel := attributes.foldl productAttribute s.channel }
  else if name = "connection" then
    { s with connectionId := attributes.foldl connectionAttribute s.connectionId }
  else if s.connectionId ≠ "" then
    match ConnectionField.ofName name with
    | none => s
    | some field =>
      { s with connectionField := field, connection := s.connection.begin attributes field }
  else s

/-- What an end tag does to the field of the cursor. -/
def Connection.trim (connection : Connection) : ConnectionField → Connection
  | .undefined => connection
  | .type => { connection with type := Xml.trim connection.type }
  | .protocol => { connection with protocol := Xml.trim connection.protocol }
  | .ip => { connection with ip := Xml.trim connection.ip }
  | .hostIp => connection
  | .port => { connection with port := Xml.trim connection.port }
  | .feed => { connection with feed := Xml.trim connection.feed }

def Connection.append (connection : Connection) (data : String) : ConnectionField → Connection
  | .undefined => connection
  | .type => { connection with type := connection.type ++ data }
  | .protocol => { connection with protocol := connection.protocol ++ data }
  | .ip => { connection with ip := connection.ip ++ data }
  | .hostIp => { connection with hostIps := connection.hostIps ++ [data] }
  | .port => { connection with port := connection.port ++ data }
  | .feed => { connection with feed := connection.feed ++ data }

/-- `utils::charconv::from_chars<uint16_t>` belongs to another library. No result is an
exception. -/
abbrev FromChars := String → Option UInt16

/-- The `EndElement` handler. -/
def endElement (fromChars : FromChars) (s : State) (name : String) : State :=
  if name = "connection" then
    { s with
      channel := s.channel.tryEmplace s.connectionId s.connection
      connectionId := ""
      connection := {} }
  else if name = "channel" then
    match fromChars s.channelId with
    | none => { s with thrown := true }
    | some channelId =>
      { s with calls := s.calls ++ [(channelId, s.channel)], channelId := "", channel := {} }
  else
    { s with
      connection := s.connection.trim s.connectionField
      connectionField := .undefined }

/-- The `CharacterData` handler. -/
def characterData (s : State) (data : String) : State :=
  { s with connection := s.connection.append data s.connectionField }

def handle (fromChars : FromChars) (s : State) : Event → State
  | .startElement name attributes => startElement s name attributes
  | .endElement name => endElement fromChars s name
  | .characterData data => characterData s data

def step (fromChars : FromChars) : State → Event → State :=
  stopping State.thrown (handle fromChars)

/-- `ConfigReader::dispatch`, from the events of the parser. -/
def dispatch (fromChars : FromChars) (es : List Event) : State := es.foldl (step fromChars) {}

theorem dispatch_append (fromChars : FromChars) (xs ys : List Event) :
    dispatch fromChars (xs ++ ys) = ys.foldl (step fromChars) (dispatch fromChars xs) :=
  List.foldl_append

section Attributes
variable (s : State) (attributes : Attributes)

/-- A channel takes all its ids and the last of its labels. -/
theorem foldl_channelAttribute : attributes.foldl channelAttribute s =
    { s with
      channelId := s.channelId ++ String.join (values "id" attributes)
      channel.label := (values "label" attributes).getLastD s.channel.label } := by
  induction attributes generalizing s with
  | nil => simp [values]
  | cons a attributes ih =>
    rw [List.foldl_cons, ih, values_cons, values_cons, channelAttribute]
    by_cases hid : a.1 = "id"
    · simp [hid, String.append_assoc]
    · by_cases hlabel : a.1 = "label"
      · simp [hlabel, List.getLast?_cons]
      · simp [hid, hlabel]

theorem mem_foldl_productAttribute (channel : Channel) (z : String) :
    z ∈ (attributes.foldl productAttribute channel).products ↔
      z ∈ channel.products ∨ z ∈ values "code" attributes := by
  induction attributes generalizing channel with
  | nil => simp [values]
  | cons a attributes ih =>
    rw [List.foldl_cons, ih, values_cons, productAttribute]
    split
    · rw [Channel.emplaceProduct]
      split
      · next hin =>
        rw [List.mem_cons]
        constructor
        · exact fun h => h.imp_right .inr
        · intro h
          cases h with
          | inl h => exact .inl h
          | inr h =>
            cases h with
            | inl h => exact .inl (h ▸ hin)
            | inr h => exact .inr h
      · simp [or_assoc]
    · rfl

theorem foldl_productAttribute_of_nil (channel : Channel) (h : values "code" attributes = []) :
    attributes.foldl productAttribute channel = channel := by
  induction attributes with
  | nil => rfl
  | cons a attributes ih =>
    rw [values_cons] at h
    split at h
    · cases h
    · next hne =>
      rw [List.foldl_cons, productAttribute, if_neg hne]
      exact ih h

theorem foldl_productAttribute_connections (channel : Channel) :
    (attributes.foldl productAttribute channel).connections = channel.connections := by
  induction attributes generalizing channel with
  | nil => rfl
  | cons a attributes ih =>
    rw [List.foldl_cons, ih, productAttribute, Channel.emplaceProduct]
    split
    · split <;> rfl
    · rfl

theorem foldl_connectionAttribute (id : String) :
    attributes.foldl connectionAttribute id = (values "id" attributes).getLastD id := by
  induction attributes generalizing id with
  | nil => rfl
  | cons a attributes ih =>
    rw [List.foldl_cons, ih, values_cons, connectionAttribute]
    split
    · rw [List.getLastD_cons]
    · rfl

/-- A connection takes the last of its ids. -/
theorem foldl_connectionAttribute_mem (h : values "id" attributes ≠ []) (id : String) :
    attributes.foldl connectionAttribute id ∈ values "id" attributes := by
  rw [foldl_connectionAttribute, List.getLastD_eq_getLast?, List.getLast?_eq_getLast_of_ne_nil h]
  exact List.getLast_mem h

end Attributes

section Text
variable (fromChars : FromChars) (s : State)

/-- All that does not depend on how the text is cut: `host_ips` "assumes full update". -/
def Connection.withoutHostIps (connection : Connection) : Connection :=
  { connection with hostIps := [] }

def Channel.withoutHostIps (channel : Channel) : Channel :=
  { channel with connections := channel.connections.map fun c => (c.1, c.2.withoutHostIps) }

def State.withoutHostIps (s : State) : State :=
  { s with
    channel := s.channel.withoutHostIps
    connection := s.connection.withoutHostIps
    calls := s.calls.map fun c => (c.1, c.2.withoutHostIps) }

theorem Channel.withoutHostIps_tryEmplace (channel : Channel) (id : String)
    (connection : Connection) : (channel.tryEmplace id connection).withoutHostIps =
      channel.withoutHostIps.tryEmplace id connection.withoutHostIps := by
  have hkeys : channel.withoutHostIps.connections.map Prod.fst =
      channel.connections.map Prod.fst := by
    rw [Channel.withoutHostIps, List.map_map]
    rfl
  rw [Channel.tryEmplace, Channel.tryEmplace, hkeys]
  split
  · rfl
  · simp [Channel.withoutHostIps]

theorem channelAttribute_withoutHostIps (a : String × String) :
    channelAttribute s.withoutHostIps a = (channelAttribute s a).withoutHostIps := by
  rw [channelAttribute, channelAttribute]
  split
  · rfl
  · split <;> rfl

theorem productAttribute_withoutHostIps (channel : Channel) (a : String × String) :
    productAttribute channel.withoutHostIps a = (productAttribute channel a).withoutHostIps := by
  have hproduct : channel.withoutHostIps.emplaceProduct a.2 =
      (channel.emplaceProduct a.2).withoutHostIps := by
    have hsame : channel.withoutHostIps.products = channel.products := rfl
    rw [Channel.emplaceProduct, Channel.emplaceProduct, hsame]
    split <;> rfl
  rw [productAttribute, productAttribute, hproduct]
  split <;> rfl

theorem typeAttribute_withoutHostIps (connection : Connection) (a : String × String) :
    typeAttribute connection.withoutHostIps a = (typeAttribute connection a).withoutHostIps := by
  rw [typeAttribute, typeAttribute]
  split <;> rfl

theorem begin_withoutHostIps (connection : Connection) (attributes : Attributes)
    (field : ConnectionField) : connection.withoutHostIps.begin attributes field =
      (connection.begin attributes field).withoutHostIps := by
  cases field with
  | type => exact List.foldl_hom Connection.withoutHostIps typeAttribute_withoutHostIps
  | _ => rfl

theorem startElement_withoutHostIps (name : String) (attributes : Attributes) :
    startElement s.withoutHostIps name attributes =
      (startElement s name attributes).withoutHostIps := by
  rw [startElement, startElement]
  split
  · exact List.foldl_hom State.withoutHostIps channelAttribute_withoutHostIps
  · split
    · have hproducts : attributes.foldl productAttribute s.channel.withoutHostIps =
          (attributes.foldl productAttribute s.channel).withoutHostIps :=
        List.foldl_hom Channel.withoutHostIps productAttribute_withoutHostIps
      simp only [State.withoutHostIps, hproducts]
    · split
      · rfl
      · have hsame : s.withoutHostIps.connectionId = s.connectionId := rfl
        rw [hsame]
        by_cases hid : s.connectionId ≠ ""
        · rw [if_pos hid, if_pos hid]
          cases ConnectionField.ofName name with
          | none => rfl
          | some field => simp only [State.withoutHostIps, begin_withoutHostIps]
        · rw [if_neg hid, if_neg hid]

theorem trim_withoutHostIps (connection : Connection) (field : ConnectionField) :
    connection.withoutHostIps.trim field = (connection.trim field).withoutHostIps := by
  cases field <;> rfl

theorem endElement_withoutHostIps (name : String) : endElement fromChars s.withoutHostIps name =
    (endElement fromChars s name).withoutHostIps := by
  have hid : s.withoutHostIps.channelId = s.channelId := rfl
  rw [endElement, endElement]
  split
  · simp only [State.withoutHostIps, Channel.withoutHostIps_tryEmplace]
    rfl
  · split
    · rw [hid]
      cases fromChars s.channelId with
      | none => rfl
      | some channelId =>
        simp only [State.withoutHostIps, List.map_append]
        rfl
    · simp only [State.withoutHostIps, trim_withoutHostIps]

theorem append_withoutHostIps (connection : Connection) (data : String)
    (field : ConnectionField) : (connection.withoutHostIps.append data field).withoutHostIps =
      (connection.append data field).withoutHostIps := by
  cases field <;> rfl

theorem append_append (connection : Connection) (a b : String) (field : ConnectionField) :
    ((connection.append a field).append b field).withoutHostIps =
      (connection.append (a ++ b) field).withoutHostIps := by
  cases field <;> simp [Connection.append, Connection.withoutHostIps, String.append_assoc]

theorem step_withoutHostIps (e : Event) :
    (step fromChars s.withoutHostIps e).withoutHostIps =
      (step fromChars s e).withoutHostIps := by
  have htwice : ∀ t : State, t.withoutHostIps.withoutHostIps = t.withoutHostIps := by
    intro t
    simp [State.withoutHostIps, Channel.withoutHostIps, Connection.withoutHostIps]
  have hthrown : s.withoutHostIps.thrown = s.thrown := rfl
  rw [step, stopping, stopping, hthrown]
  split
  · exact htwice s
  · cases e with
    | startElement name attributes =>
      rw [handle, handle, startElement_withoutHostIps, htwice]
    | endElement name => rw [handle, handle, endElement_withoutHostIps, htwice]
    | characterData data =>
      simp only [handle, characterData, State.withoutHostIps, append_withoutHostIps]
      exact htwice { s with connection := s.connection.append data s.connectionField }

theorem step_characterData (a b : String) :
    (step fromChars (step fromChars s (.characterData a)) (.characterData b)).withoutHostIps =
      (step fromChars s (.characterData (a ++ b))).withoutHostIps := by
  refine stopping_stopping rfl ?_
  simp only [handle, characterData, State.withoutHostIps, append_append]

/-- However the text is cut, the reader delivers the same. -/
theorem dispatch_resplit {f g : List Event} (h : Resplit f g) :
    (dispatch fromChars g).withoutHostIps = (dispatch fromChars f).withoutHostIps := by
  refine resplit_run ?_ (step_characterData fromChars) h {}
  intro s t e hst
  rw [← step_withoutHostIps, hst, step_withoutHostIps]

end Text

section Connections
variable {fromChars : FromChars} {s : State} {es : List Event}

/-- The part of the reader that collects a connection. -/
def reader : RecordReader Connection ConnectionField where
  kind := "connection"
  starts := ["channel", "product"]
  ends := ["channel"]
  initial := {}
  undefined := .undefined
  identify attributes c := (attributes.foldl connectionAttribute c.1, c.2)
  fieldOf := ConnectionField.ofName
  begin field attributes connection := connection.begin attributes field
  append field data connection := connection.append data field
  trim field connection := connection.trim field
  ends_starts _ h := List.mem_cons.2 (.inl (List.mem_singleton.1 h))
  identified attributes h he := h.2 (he ▸ foldl_connectionAttribute_mem attributes h.1 "")
  append_undefined _ _ := rfl
  trim_undefined _ := rfl

def State.cursor (s : State) : Cursor Connection ConnectionField :=
  { id := s.connectionId, field := s.connectionField, record := s.connection }

theorem cursor_startElement (name : String) (attributes : Attributes) :
    (startElement s name attributes).cursor = reader.startElement s.cursor name attributes := by
  rw [startElement, RecordReader.startElement]
  by_cases hchannel : name = "channel"
  · subst hchannel
    rw [if_pos rfl, foldl_channelAttribute]
    rfl
  · rw [if_neg hchannel]
    by_cases hproduct : name = "product"
    · subst hproduct
      rfl
    · rw [if_neg hproduct]
      by_cases hconnection : name = "connection"
      · subst hconnection
        rfl
      · have hstarts : name ∉ reader.starts := by
          change name ∉ ["channel", "product"]
          simp [hchannel, hproduct]
        rw [if_neg hconnection, if_neg (show name ≠ reader.kind from hconnection)]
        by_cases hid : s.connectionId = ""
        · rw [if_neg (by simpa using hid), if_pos (.inr hid)]
        · have hskip : ¬ (name ∈ reader.starts ∨ s.cursor.id = "") := not_or.2 ⟨hstarts, hid⟩
          rw [if_pos hid, if_neg hskip]
          have hfield : reader.fieldOf name = ConnectionField.ofName name := rfl
          rw [hfield]
          cases ConnectionField.ofName name <;> rfl

theorem cursor_endElement (name : String) :
    (endElement fromChars s name).cursor = reader.endElement s.cursor name := by
  rw [endElement, RecordReader.endElement]
  by_cases hconnection : name = "connection"
  · subst hconnection
    rfl
  · rw [if_neg hconnection, if_neg (show name ≠ reader.kind from hconnection)]
    by_cases hchannel : name = "channel"
    · subst hchannel
      rw [if_pos rfl, if_pos (show "channel" ∈ reader.ends from List.mem_cons_self)]
      cases fromChars s.channelId <;> rfl
    · have hends : name ∉ reader.ends := fun h => hchannel (List.mem_singleton.1 h)
      rw [if_neg hchannel, if_neg hends]
      rfl

theorem cursor_handle (e : Event) : (handle fromChars s e).cursor = reader.step s.cursor e := by
  cases e with
  | startElement name attributes => exact cursor_startElement name attributes
  | endElement name => exact cursor_endElement name
  | characterData data => rfl

theorem step_of_not_thrown (h : s.thrown = false) (e : Event) :
    step fromChars s e = handle fromChars s e :=
  stopping_of_not_thrown h

theorem not_thrown_of_step {e : Event} (h : (step fromChars s e).thrown = false) :
    s.thrown = false :=
  not_thrown_of_stopping h

theorem cursor_step {e : Event} (h : (step fromChars s e).thrown = false) :
    (step fromChars s e).cursor = reader.step s.cursor e := by
  rw [step_of_not_thrown (not_thrown_of_step h), cursor_handle]

theorem cursor_run (h : (es.foldl (step fromChars) s).thrown = false) :
    s.thrown = false ∧ (es.foldl (step fromChars) s).cursor = es.foldl reader.step s.cursor :=
  RecordReader.run_cursor (fun _ _ => not_thrown_of_step) (fun _ _ => cursor_step) h

/-- What is read of a connection depends on its own events only. -/
theorem cursor_element {kinds : List String} (hk : "connection" ∈ kinds) {before inner : List Event}
    {attributes : Attributes}
    (hn : Nested kinds (before ++ .startElement "connection" attributes :: inner) [])
    (h : (dispatch fromChars
      (before ++ .startElement "connection" attributes :: inner)).thrown = false) :
    (dispatch fromChars (before ++ .startElement "connection" attributes :: inner)).cursor =
      (Event.startElement "connection" attributes :: inner).foldl reader.step reader.start :=
  (cursor_run h).2.trans (RecordReader.run_element (R := reader) hk hn)

end Connections

end RoqCme.Mdp.ConfigReader
