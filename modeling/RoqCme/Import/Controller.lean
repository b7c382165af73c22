import RoqCme.MarketData.Streams
import RoqCme.Mdp.Config

/-! The import tool (`import/controller`) reads a capture of the multicast feeds, hands its packets
to the market data manager and appends what the manager publishes to an event log. The timer
follows the time of the capture. -/
namespace RoqCme.Mdp
open RoqCme.MarketData (ConnectionType)

/-- The feeds that a channel has an object for. -/
def FeedType.connectionType : FeedType → Option ConnectionType
  | .historicalReplay => none
  | .instrumentDefinition => some .instrumentDefinition
  | .mbpMarketRecovery => some .mbpMarketRecovery
  | .mbofdMarketRecovery => some .mbofdMarketRecovery
  | .incremental => some .incremental

end RoqCme.Mdp

namespace RoqCme.Import
open RoqCme.Mdp RoqCme.MarketData RoqCme.Lib
variable {β Qp Qo : Type}

/-- A packet of the capture; the import does not look at where it came from. -/
structure Datagram where
  timestamp : Nat
  destinationAddress : String
  destinationPort : UInt16
  payload : List UInt8
  deriving DecidableEq, Repr

/-- In nanoseconds. -/
def timerFrequency : Nat := 100000000

/-- The settings of the tool and what it has read from its files. -/
structure Settings (β Qp Qo : Type) where
  setup : Setup β Qp Qo
  streams : StreamSettings
  config : Config
  cacheAllReferenceData : Bool

/-- `log` has the number of each entry of the event log, and `fatal` is the branch of the manager
for the historical replay. `handled` keeps what the manager was given; history only. -/
structure Controller (β Qp Qo : Type) where
  marketData : Publisher β Qp Qo
  initialized : Bool := false
  lastTimerUpdate : Nat := 0
  sourceSeqno : Nat := 0
  log : List (Nat × Output) := []
  fatal : Bool := false
  handled : List (Nat × Input) := []

/-- The feeds that the import takes. -/
def includes (key : FeedKey) : Bool :=
  key.connectionType = .incremental || key.priority = .primary

namespace Controller
variable (settings : Settings β Qp Qo)

def append (c : Controller β Qp Qo) (value : Output) : Controller β Qp Qo :=
  { c with sourceSeqno := c.sourceSeqno + 1, log := c.log ++ [(c.sourceSeqno + 1, value)] }

/-- Whether the dispatcher of the import appends the value. -/
def keeps : Output → Bool
  | .referenceData value => settings.cacheAllReferenceData || !value.discard
  | .update (.referenceData value) => settings.cacheAllReferenceData || !value.discard
  | _ => true

def publish (c : Controller β Qp Qo) (value : Output) : Controller β Qp Qo :=
  if keeps settings value then c.append value else c

/-- An event for the manager, and what it publishes meanwhile. -/
def handle (time : Nat) (input : Input) (c : Controller β Qp Qo) : Controller β Qp Qo :=
  let marketData := c.marketData.step settings.setup settings.streams input
  let outputs := marketData.outputs.drop c.marketData.outputs.length
  outputs.foldl (publish settings)
    { c with marketData := marketData, handled := c.handled ++ [(time, input)] }

/-- The `while` loop; no more than `timestamp` passes are needed (`timerLoop_caught_up`). The timer
event itself has no time. -/
def timerLoop (timestamp : Nat) : Nat → Controller β Qp Qo → Controller β Qp Qo
  | 0, c => c
  | fuel + 1, c =>
    if c.lastTimerUpdate < timestamp then
      if c.lastTimerUpdate ≠ 0 then
        let now := c.lastTimerUpdate + timerFrequency
        timerLoop timestamp fuel
          (handle settings now (.timer 0) { c with lastTimerUpdate := now })
      else timerLoop timestamp fuel { c with lastTimerUpdate := timestamp }
    else c

/-- `Manager::dispatch`: only a channel that exists gets to the branches. -/
def dispatch (timestamp : Nat) (key : FeedKey) (payload : List UInt8) (c : Controller β Qp Qo) :
    Controller β Qp Qo :=
  match key.connectionType.connectionType with
  | some connectionType =>
    handle settings timestamp
      (.packet ⟨key.channelId.toNat, connectionType, key.priority, payload⟩) c
  | none =>
    match c.marketData.manager.channels key.channelId.toNat with
    | some _ => { c with fatal := true }
    | none => c

/-- The first packet starts the manager. -/
def ensureStarted (timestamp : Nat) (c : Controller β Qp Qo) : Controller β Qp Qo :=
  if c.initialized then c
  else handle settings timestamp .start { c with initialized := true }

/-- The packet goes to the feed of its address. -/
def route (d : Datagram) (c : Controller β Qp Qo) : Controller β Qp Qo :=
  match settings.config.findAddress d.destinationAddress d.destinationPort with
  | some key => if includes key then dispatch settings d.timestamp key d.payload c else c
  | none => c

/-- A packet of the capture. -/
def onDatagram (c : Controller β Qp Qo) (d : Datagram) : Controller β Qp Qo :=
  if c.fatal then c
  else
    route settings d
      (timerLoop settings d.timestamp (d.timestamp + 1) (ensureStarted settings d.timestamp c))

def run (capture : List Datagram) (c : Controller β Qp Qo) : Controller β Qp Qo :=
  capture.foldl (onDatagram settings) c

/-- After construction. -/
def start (channelIds : List Nat) (b : β) : Controller β Qp Qo :=
  { marketData := Publisher.start settings.setup settings.streams channelIds b }

section Handle
variable {settings : Settings β Qp Qo}

/-- The dispatcher only touches the log. -/
theorem foldl_publish (outputs : List Output) (c : Controller β Qp Qo) :
    outputs.foldl (publish settings) c =
      { c with
        sourceSeqno := c.sourceSeqno + (outputs.filter (keeps settings)).length
        log := c.log ++ (List.range' (c.sourceSeqno + 1)
          (outputs.filter (keeps settings)).length).zip
            (outputs.filter (keeps settings)) } := by
  induction outputs generalizing c with
  | nil => simp
  | cons output outputs ih =>
    rw [List.foldl_cons, ih, publish]
    split
    · next hkeep =>
      simp only [List.filter_cons_of_pos hkeep, append, List.length_cons, List.range'_succ,
        List.zip_cons_cons, List.append_assoc, List.singleton_append]
      congr 1
      omega
    · next hkeep => rw [List.filter_cons_of_neg hkeep]

@[simp] theorem handle_marketData (time : Nat) (input : Input) (c : Controller β Qp Qo) :
    (handle settings time input c).marketData =
      c.marketData.step settings.setup settings.streams input := by
  simp only [handle, foldl_publish]

@[simp] theorem handle_handled (time : Nat) (input : Input) (c : Controller β Qp Qo) :
    (handle settings time input c).handled =
      c.handled ++ [(time, input)] := by
  simp only [handle, foldl_publish]

@[simp] theorem handle_lastTimerUpdate (time : Nat) (input : Input) (c : Controller β Qp Qo) :
    (handle settings time input c).lastTimerUpdate = c.lastTimerUpdate := by
  simp only [handle, foldl_publish]

@[simp] theorem handle_initialized (time : Nat) (input : Input) (c : Controller β Qp Qo) :
    (handle settings time input c).initialized = c.initialized := by
  simp only [handle, foldl_publish]

@[simp] theorem handle_fatal (time : Nat) (input : Input) (c : Controller β Qp Qo) :
    (handle settings time input c).fatal = c.fatal := by
  simp only [handle, foldl_publish]

end Handle

section Invariants

/-- The events of the manager keep the invariant, and it does not look at the timer and the
flags. -/
structure Handling (I : Controller β Qp Qo → Prop) : Prop where
  handle : ∀ time input c, I c → I (handle settings time input c)
  congr : ∀ {c c' : Controller β Qp Qo}, I c → c'.marketData = c.marketData → c'.log = c.log →
    c'.sourceSeqno = c.sourceSeqno → c'.handled = c.handled → I c'

variable {settings} {I : Controller β Qp Qo → Prop}

theorem Handling.timerLoop (h : Handling settings I) (timestamp fuel : Nat)
    {c : Controller β Qp Qo} (hc : I c) : I (timerLoop settings timestamp fuel c) := by
  induction fuel generalizing c with
  | zero => exact hc
  | succ fuel ih =>
    unfold Controller.timerLoop
    split
    · split
      · exact ih (h.handle _ _ _ (h.congr hc rfl rfl rfl rfl))
      · exact ih (h.congr hc rfl rfl rfl rfl)
    · exact hc

theorem Handling.ensureStarted (h : Handling settings I) (timestamp : Nat)
    {c : Controller β Qp Qo} (hc : I c) : I (ensureStarted settings timestamp c) := by
  unfold Controller.ensureStarted
  split
  · exact hc
  · exact h.handle _ _ _ (h.congr hc rfl rfl rfl rfl)

theorem Handling.route (h : Handling settings I) (d : Datagram) {c : Controller β Qp Qo}
    (hc : I c) : I (route settings d c) := by
  unfold Controller.route
  split
  · split
    · unfold dispatch
      split
      · exact h.handle _ _ _ hc
      · split
        · exact h.congr hc rfl rfl rfl rfl
        · exact hc
    · exact hc
  · exact hc

theorem Handling.onDatagram (h : Handling settings I) (d : Datagram) {c : Controller β Qp Qo}
    (hc : I c) : I (onDatagram settings c d) := by
  unfold Controller.onDatagram
  split
  · exact hc
  · exact h.route d (h.timerLoop d.timestamp _ (h.ensureStarted d.timestamp hc))

theorem Handling.run (h : Handling settings I) (capture : List Datagram) {c : Controller β Qp Qo}
    (hc : I c) : I (run settings capture c) := by
  induction capture generalizing c with
  | nil => exact hc
  | cons d capture ih => exact ih (h.onDatagram d hc)

end Invariants

section Log

/-- The log has what the manager has published, without the reference data that is discarded,
numbered from one. -/
structure Logged (c : Controller β Qp Qo) : Prop where
  numbers : c.log.map Prod.fst = List.range' 1 c.sourceSeqno
  values : c.log.map Prod.snd = c.marketData.outputs.filter (keeps settings)

theorem Logged.handle {c : Controller β Qp Qo} (h : Logged settings c) (time : Nat)
    (input : Input) : Logged settings (handle settings time input c) := by
  obtain ⟨new, hnew⟩ := c.marketData.step_outputs settings.setup settings.streams input
  have houtputs : ((c.marketData.step settings.setup settings.streams input).outputs.drop
      c.marketData.outputs.length) = new := by rw [hnew, List.drop_left]
  simp only [Controller.handle, foldl_publish, houtputs]
  constructor
  · rw [List.map_append, h.numbers, List.map_fst_zip (by rw [List.length_range']),
      Nat.add_comm c.sourceSeqno 1, List.range'_append_1]
  · rw [List.map_append, h.values, List.map_snd_zip (by rw [List.length_range']), hnew,
      List.filter_append]

end Log

end Controller
end RoqCme.Import
