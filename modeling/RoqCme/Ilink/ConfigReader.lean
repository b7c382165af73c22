import RoqCme.Lib.RecordReader

/-! The market segments of the order entry configuration (`protocol/ilink/config_reader`). -/
namespace RoqCme.Ilink.ConfigReader
open RoqCme.Lib RoqCme.Lib.Xml

/-- `ConfigReader::MarketSegment` -/
structure MarketSegment where
  label : String := ""
  protocol : String := ""
  primaryHostIp : String := ""
  backupHostIp : String := ""
  drPrimaryHostIp : String := ""
  drBackupHostIp : String := ""
  toCmeSchemaVersion : String := ""
  fromCmeSchemaVersion : String := ""
  deriving DecidableEq, Repr

inductive MarketSegmentField where
  | undefined | protocol | primaryHostIp | backupHostIp | drPrimaryHostIp | drBackupHostIp
  | toCmeSchemaVersion | fromCmeSchemaVersion
  deriving DecidableEq, Repr

/-- `MyHandler`, with the calls of the other handler so far. Nothing is read after an exception. -/
structure State where
  marketSegmentId : String := ""
  marketSegment : MarketSegment := {}
  marketSegmentField : MarketSegmentField := .undefined
  calls : List (UInt8 × MarketSegment) := []
  thrown : Bool := false
  deriving DecidableEq, Repr

/-- One round of the loop over the attributes of a market segment. -/
def marketSegmentAttribute (c : String × MarketSegment) (a : String × String) :
    String × MarketSegment :=
  if a.1 = "id" then (c.1 ++ a.2, c.2)
  else if a.1 = "label" then (c.1, { c.2 with label := a.2 })
  else c

/-- The children of a market segment. -/
def MarketSegmentField.ofName (name : String) : Option MarketSegmentField :=
  if name = "protocol" then some .protocol
  else if name = "primary-host-ip" then some .primaryHostIp
  else if name = "backup-host-ip" then some .backupHostIp
  else if name = "dr-primary-host-ip" then some .drPrimaryHostIp
  else if name = "dr-backup-host-ip" then some .drBackupHostIp
  else if name = "ToCMESchemaVersion" then some .toCmeSchemaVersion
  else if name = "FromCMESchemaVersion" then some .fromCmeSchemaVersion
  else none -- log::warn

/-- The `StartElement` handler. -/
def startElement (s : State) (name : String) (attributes : Attributes) : State :=
  if name = "marketsegment" then
    let c := attributes.foldl marketSegmentAttribute (s.marketSegmentId, s.marketSegment)
    { s with marketSegmentId := c.1, marketSegment := c.2 }
  else if s.marketSegmentId ≠ "" then
    match MarketSegmentField.ofName name with
    | none => s
    | some field => { s with marketSegmentField := field }
  else s

/-- The field of the cursor is replaced. -/
def MarketSegment.update (change : String → String) (m : MarketSegment) :
    MarketSegmentField → MarketSegment
  | .undefined => m
  | .protocol => { m with protocol := change m.protocol }
  | .primaryHostIp => { m with primaryHostIp := change m.primaryHostIp }
  | .backupHostIp => { m with backupHostIp := change m.backupHostIp }
  | .drPrimaryHostIp => { m with drPrimaryHostIp := change m.drPrimaryHostIp }
  | .drBackupHostIp => { m with drBackupHostIp := change m.drBackupHostIp }
  | .toCmeSchemaVersion => { m with toCmeSchemaVersion := change m.toCmeSchemaVersion }
  | .fromCmeSchemaVersion => { m with fromCmeSchemaVersion := change m.fromCmeSchemaVersion }

/-- `utils::charconv::from_chars<uint8_t>` belongs to another library. No result is an exception. -/
abbrev FromChars := String → Option UInt8

/-- The `EndElement` handler. -/
def endElement (fromChars : FromChars) (s : State) (name : String) : State :=
  if name = "marketsegment" then
    match fromChars s.marketSegmentId with
    | none => { s with thrown := true }
    | some marketSegmentId =>
      { s with
        calls := s.calls ++ [(marketSegmentId, s.marketSegment)]
        marketSegmentId := ""
        marketSegment := {} }
  else
    { s with
      marketSegment := s.marketSegment.update trim s.marketSegmentField
      marketSegmentField := .undefined }

/-- The `CharacterData` handler. -/
def characterData (s : State) (data : String) : State :=
  { s with
    marketSegment := s.marketSegment.update (fun text => text ++ data) s.marketSegmentField }

def handle (fromChars : FromChars) (s : State) : Event → State
  | .startElement name attributes => startElement s name attributes
  | .endElement name => endElement fromChars s name
  | .characterData data => characterData s data

def step (fromChars : FromChars) : State → Event → State :=
  stopping State.thrown (handle fromChars)

/-- `ConfigReader::dispatch`, from the events of the parser. -/
def dispatch (fromChars : FromChars) (es : List Event) : State := es.foldl (step fromChars) {}

theorem dispatch_append (fromChars : FromChars) (xs ys : List Event) :
    dispatch fromChars (xs ++ ys) = ys.foldl (step fromChars) (dispatch fromChars xs) :=
  List.foldl_append

section Text
variable (fromChars : FromChars) (s : State)

theorem step_characterData (a b : String) :
    id (step fromChars (step fromChars s (.characterData a)) (.characterData b)) =
      id (step fromChars s (.characterData (a ++ b))) := by
  refine stopping_stopping rfl ?_
  cases h : s.marketSegmentField <;>
    simp [handle, characterData, h, MarketSegment.update, String.append_assoc]

/-- The reader does not see how the text is cut. -/
theorem dispatch_resplit {f g : List Event} (h : Resplit f g) :
    dispatch fromChars g = dispatch fromChars f := by
  have hview : ∀ s t e, id s = id t → id (step fromChars s e) = id (step fromChars t e) :=
    fun s t e hst => congrArg (fun s => step fromChars s e) hst
  exact resplit_run hview (step_characterData fromChars) h {}

end Text

section Segments
variable {fromChars : FromChars} {s : State} {es : List Event} {kinds : List String}

theorem foldl_marketSegmentAttribute (attributes : Attributes) (c : String × MarketSegment) :
    (attributes.foldl marketSegmentAttribute c).1 =
      c.1 ++ String.join (values "id" attributes) := by
  induction attributes generalizing c with
  | nil => simp [values]
  | cons a attributes ih =>
    rw [List.foldl_cons, ih, values_cons, marketSegmentAttribute]
    split
    · rw [String.join_cons, String.append_assoc]
    · split <;> rfl

theorem join_ne_empty {ids : List String} (hne : ids ≠ []) (h : "" ∉ ids) :
    String.join ids ≠ "" := by
  cases ids with
  | nil => exact absurd rfl hne
  | cons id ids =>
    rw [String.join_cons]
    intro he
    rw [(String.append_eq_empty_iff.1 he).1] at h
    exact h List.mem_cons_self

/-- The reader as one of the elements with one name. -/
def reader : RecordReader MarketSegment MarketSegmentField where
  kind := "marketsegment"
  starts := []
  ends := []
  initial := {}
  undefined := .undefined
  identify attributes c := attributes.foldl marketSegmentAttribute c
  fieldOf := MarketSegmentField.ofName
  begin _ _ m := m
  append field data m := m.update (fun text => text ++ data) field
  trim field m := m.update trim field
  ends_starts _ h := h
  identified attributes h he := by
    rw [foldl_marketSegmentAttribute, String.empty_append] at he
    exact join_ne_empty h.1 h.2 he
  append_undefined _ _ := rfl
  trim_undefined _ := rfl

def State.cursor (s : State) : Cursor MarketSegment MarketSegmentField :=
  { id := s.marketSegmentId, field := s.marketSegmentField, record := s.marketSegment }

theorem cursor_startElement (name : String) (attributes : Attributes) :
    (startElement s name attributes).cursor = reader.startElement s.cursor name attributes := by
  rw [startElement, RecordReader.startElement]
  by_cases hkind : name = "marketsegment"
  · subst hkind
    rfl
  · rw [if_neg hkind, if_neg (show name ≠ reader.kind from hkind)]
    by_cases hid : s.marketSegmentId = ""
    · rw [if_neg (by simpa using hid), if_pos (.inr hid)]
    · have hskip : ¬ (name ∈ reader.starts ∨ s.cursor.id = "") :=
        not_or.2 ⟨List.not_mem_nil, hid⟩
      have hfield : reader.fieldOf name = MarketSegmentField.ofName name := rfl
      rw [if_pos hid, if_neg hskip, hfield]
      cases MarketSegmentField.ofName name <;> rfl

/-- The end of a record without an exception clears it. -/
theorem cursor_endElement (name : String) (h : (endElement fromChars s name).thrown = false) :
    (endElement fromChars s name).cursor = reader.endElement s.cursor name := by
  rw [endElement] at h ⊢
  rw [RecordReader.endElement]
  by_cases hkind : name = "marketsegment"
  · subst hkind
    rw [if_pos rfl] at h ⊢
    cases hid : fromChars s.marketSegmentId with
    | none =>
      rw [hid] at h
      cases h
    | some id => rfl
  · rw [if_neg hkind, if_neg (show name ≠ reader.kind from hkind),
      if_neg (show name ∉ reader.ends from List.not_mem_nil)]
    rfl

theorem step_of_not_thrown (h : s.thrown = false) (e : Event) :
    step fromChars s e = handle fromChars s e :=
  stopping_of_not_thrown h

theorem not_thrown_of_step {e : Event} (h : (step fromChars s e).thrown = false) :
    s.thrown = false :=
  not_thrown_of_stopping h

theorem cursor_step {e : Event} (h : (step fromChars s e).thrown = false) :
    (step fromChars s e).cursor = reader.step s.cursor e := by
  have hstep : step fromChars s e = handle fromChars s e :=
    step_of_not_thrown (not_thrown_of_step h) e
  rw [hstep] at h ⊢
  cases e with
  | startElement name attributes => exact cursor_startElement name attributes
  | endElement name => exact cursor_endElement name h
  | characterData data => rfl

theorem cursor_run (h : (es.foldl (step fromChars) s).thrown = false) :
    s.thrown = false ∧ (es.foldl (step fromChars) s).cursor = es.foldl reader.step s.cursor :=
  RecordReader.run_cursor (fun _ _ => not_thrown_of_step) (fun _ _ => cursor_step) h

/-- Only the end of a market segment calls the handler, or throws. -/
theorem step_inside {e : Event} (hend : e ≠ .endElement "marketsegment") :
    (step fromChars s e).thrown = s.thrown ∧ (step fromChars s e).calls = s.calls := by
  rw [step, stopping]
  split
  · exact ⟨rfl, rfl⟩
  · cases e with
    | startElement name attributes =>
      rw [handle, startElement]
      split
      · exact ⟨rfl, rfl⟩
      · split
        · split <;> exact ⟨rfl, rfl⟩
        · exact ⟨rfl, rfl⟩
    | endElement name =>
      have hname : name ≠ "marketsegment" := fun hn => hend (by rw [hn])
      rw [handle, endElement, if_neg hname]
      exact ⟨rfl, rfl⟩
    | characterData data => exact ⟨rfl, rfl⟩

theorem run_inside (hes : .endElement "marketsegment" ∉ es) :
    (es.foldl (step fromChars) s).thrown = s.thrown ∧
      (es.foldl (step fromChars) s).calls = s.calls := by
  have hstep : ∀ e ∈ es, ∀ t : State,
      ((step fromChars t e).thrown, (step fromChars t e).calls) = (t.thrown, t.calls) :=
    fun e he t => Prod.ext_iff.2 (step_inside fun hn => hes (hn ▸ he))
  exact Prod.ext_iff.1 (view_foldl (fun t : State => (t.thrown, t.calls)) hstep s)

/-- What the handler is called with for the element that has been read. -/
def delivered (fromChars : FromChars) (c : Cursor MarketSegment MarketSegmentField) :
    List (UInt8 × MarketSegment) :=
  match fromChars c.id with
  | none => []
  | some id => [(id, c.record)]

theorem calls_endElement (h : s.thrown = false) :
    (step fromChars s (.endElement "marketsegment")).calls =
      s.calls ++ delivered fromChars s.cursor := by
  have hid : s.cursor.id = s.marketSegmentId := rfl
  rw [step_of_not_thrown h, handle, endElement, if_pos rfl, delivered, hid]
  cases fromChars s.marketSegmentId with
  | none => rw [List.append_nil]
  | some id => rfl

/-- The calls at the end of a market segment depend on its own events only. -/
theorem calls_element (hk : "marketsegment" ∈ kinds) {before inner : List Event}
    {attributes : Attributes}
    (hn : Nested kinds (before ++ .startElement "marketsegment" attributes :: inner) [])
    (hinner : .endElement "marketsegment" ∉ inner)
    (h : (dispatch fromChars before).thrown = false) :
    (dispatch fromChars (before ++
      .startElement "marketsegment" attributes :: (inner ++ [.endElement "marketsegment"]))).calls =
      (dispatch fromChars before).calls ++ delivered fromChars
        ((Event.startElement "marketsegment" attributes :: inner).foldl reader.step
          reader.start) := by
  have hread : .endElement "marketsegment" ∉
      Event.startElement "marketsegment" attributes :: inner := by simp [hinner]
  obtain ⟨hthrown, hcalls⟩ := run_inside (s := dispatch fromChars before) hread
  rw [h, ← dispatch_append] at hthrown
  rw [← dispatch_append] at hcalls
  have hcursor : (dispatch fromChars
        (before ++ .startElement "marketsegment" attributes :: inner)).cursor =
      (Event.startElement "marketsegment" attributes :: inner).foldl reader.step reader.start :=
    (cursor_run hthrown).2.trans (RecordReader.run_element (R := reader) hk hn)
  have hsplit : before ++
      .startElement "marketsegment" attributes :: (inner ++ [.endElement "marketsegment"]) =
        (before ++ .startElement "marketsegment" attributes :: inner) ++
          [.endElement "marketsegment"] := by simp
  rw [hsplit, dispatch_append, List.foldl_cons, List.foldl_nil, calls_endElement hthrown, hcalls,
    hcursor]

/-- The calls at the end of a market segment are the same, whatever comes before it. -/
def SegmentsApart (kinds : List String) (fromChars : FromChars) (f : List Event) : Prop :=
  ∀ before element after, f = before ++ element ++ after → IsElement "marketsegment" element →
    ∀ before', Nested kinds (before' ++ element) [] →
      (dispatch fromChars before).thrown = false → (dispatch fromChars before').thrown = false →
        ∃ calls,
          (dispatch fromChars (before ++ element)).calls =
            (dispatch fromChars before).calls ++ calls ∧
          (dispatch fromChars (before' ++ element)).calls =
            (dispatch fromChars before').calls ++ calls

theorem segmentsApart (hk : "marketsegment" ∈ kinds) {f : List Event} (hf : Nested kinds f []) :
    SegmentsApart kinds fromChars f := by
  intro before element after hsplit helement before' hn' ht ht'
  obtain ⟨attributes, inner, rfl, hinner⟩ := helement
  have hstart : ∀ before : List Event, Nested kinds (before ++
      .startElement "marketsegment" attributes :: (inner ++ [.endElement "marketsegment"])) [] →
        Nested kinds (before ++ .startElement "marketsegment" attributes :: inner) [] := by
    intro before hn
    rw [← List.cons_append, ← List.append_assoc] at hn
    exact hn.of_append
  rw [hsplit] at hf
  exact ⟨_, calls_element hk (hstart before hf.of_append) hinner ht,
    calls_element hk (hstart before' hn') hinner ht'⟩

end Segments

end RoqCme.Ilink.ConfigReader
