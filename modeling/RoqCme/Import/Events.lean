import RoqCme.Import.Controller

/-! What the import hands to the manager, in terms of the capture alone: the start, the packets of
the feeds it takes, and a timer event each 100 milliseconds of the time of the capture. A packet
of the historical replay of a configured channel ends the import. -/
namespace RoqCme.Import
open RoqCme.Mdp RoqCme.MarketData RoqCme.Lib
variable {β Qp Qo : Type}

def isTimer : Input → Bool
  | .timer _ => true
  | _ => false

/-- The times of the timer events. -/
def timerTimes (events : List (Nat × Input)) : List Nat :=
  (events.filter fun event => isTimer event.2).map Prod.fst

/-- The other events. -/
def untimed (events : List (Nat × Input)) : List (Nat × Input) :=
  events.filter fun event => !isTimer event.2

/-- The time that the timer starts from; zero is no time. -/
def firstTime (capture : List Datagram) : Nat :=
  ((capture.map Datagram.timestamp).find? (· ≠ 0)).getD 0

def latestTime (capture : List Datagram) : Nat :=
  (capture.map Datagram.timestamp).foldl max 0

/-- The number of timer events between two times. -/
def ticks (first latest : Nat) : Nat := (latest - first + (timerFrequency - 1)) / timerFrequency

namespace Controller
variable (settings : Settings β Qp Qo) (channelIds : List Nat)

/-- The packet for the manager. -/
def taken (d : Datagram) : Option Packet :=
  match settings.config.findAddress d.destinationAddress d.destinationPort with
  | some key =>
    if includes key then
      key.connectionType.connectionType.map fun connectionType =>
        ⟨key.channelId.toNat, connectionType, key.priority, d.payload⟩
    else none
  | none => none

/-- The import does not survive the packet. -/
def aborts (d : Datagram) : Bool :=
  match settings.config.findAddress d.destinationAddress d.destinationPort with
  | some key => includes key && key.connectionType == .historicalReplay &&
      channelIds.contains key.channelId.toNat
  | none => false

/-- The part of the capture that is read. -/
def upToAbort : List Datagram → List Datagram
  | [] => []
  | d :: capture => if aborts settings channelIds d then [d] else d :: upToAbort capture

section Loop

/-- Where the timer starts from when a packet comes. -/
def base (c : Controller β Qp Qo) (timestamp : Nat) : Nat :=
  if c.lastTimerUpdate = 0 then timestamp else c.lastTimerUpdate

theorem ticks_of_le {first latest : Nat} (h : latest ≤ first) : ticks first latest = 0 := by
  unfold ticks timerFrequency
  omega

theorem ticks_succ {first latest : Nat} (h : first < latest) :
    ticks first latest = ticks (first + timerFrequency) latest + 1 := by
  unfold ticks timerFrequency
  omega

/-- One pass for each timer event; a timer that runs catches up with the packet. -/
theorem timerLoop_running {timestamp fuel : Nat} {c : Controller β Qp Qo}
    (hrunning : c.lastTimerUpdate ≠ 0) (hfuel : timestamp ≤ c.lastTimerUpdate + fuel) :
    let c' := timerLoop settings timestamp fuel c
    let n := ticks c.lastTimerUpdate timestamp
    c'.lastTimerUpdate = c.lastTimerUpdate + timerFrequency * n ∧
      c'.handled = c.handled ++ (List.range' (c.lastTimerUpdate + timerFrequency) n
        timerFrequency).map (fun time => (time, .timer 0)) ∧
      c'.initialized = c.initialized ∧ c'.fatal = c.fatal := by
  induction fuel generalizing c with
  | zero => simp [timerLoop, ticks_of_le (show timestamp ≤ c.lastTimerUpdate by omega)]
  | succ fuel ih =>
    unfold timerLoop
    by_cases hlt : c.lastTimerUpdate < timestamp
    · rw [if_pos hlt, if_pos hrunning]
      have hstep := ih (c := handle settings (c.lastTimerUpdate + timerFrequency) (.timer 0)
        { c with lastTimerUpdate := c.lastTimerUpdate + timerFrequency })
        (by rw [handle_lastTimerUpdate]; unfold timerFrequency; simp)
        (by rw [handle_lastTimerUpdate]; unfold timerFrequency; simp only; omega)
      simp only [handle_lastTimerUpdate, handle_handled, handle_initialized, handle_fatal] at hstep
      obtain ⟨hclock, hhandled, hinitialized, hfatal⟩ := hstep
      refine ⟨?_, ?_, hinitialized, hfatal⟩
      · rw [hclock, ticks_succ hlt, Nat.mul_succ]
        omega
      · rw [hhandled, ticks_succ hlt, List.range'_succ, List.map_cons, List.append_assoc,
          List.singleton_append]
    · rw [if_neg hlt]
      simp [ticks_of_le (Nat.le_of_not_lt hlt)]

theorem timerLoop_spec (timestamp : Nat) (c : Controller β Qp Qo) :
    let c' := timerLoop settings timestamp (timestamp + 1) c
    let n := ticks (c.base timestamp) timestamp
    c'.lastTimerUpdate = c.base timestamp + timerFrequency * n ∧
      c'.handled = c.handled ++ (List.range' (c.base timestamp + timerFrequency) n
        timerFrequency).map (fun time => (time, .timer 0)) ∧
      c'.initialized = c.initialized ∧ c'.fatal = c.fatal := by
  by_cases hzero : c.lastTimerUpdate = 0
  · have hbase : c.base timestamp = timestamp := if_pos hzero
    rw [hbase, ticks_of_le (Nat.le_refl _)]
    unfold timerLoop
    by_cases hlt : c.lastTimerUpdate < timestamp
    · rw [if_pos hlt, if_neg (not_not.2 hzero)]
      cases timestamp with
      | zero => omega
      | succ t => simp [timerLoop]
    · rw [if_neg hlt]
      have htimestamp : timestamp = 0 := by omega
      simp [hzero, htimestamp]
  · have hbase : c.base timestamp = c.lastTimerUpdate := if_neg hzero
    rw [hbase]
    exact timerLoop_running settings hzero (by omega)

end Loop

section Follows

/-- The manager has had the events and nothing else. -/
def Follows (b : β) (c : Controller β Qp Qo) : Prop :=
  c.marketData = Publisher.run settings.setup settings.streams (c.handled.map Prod.snd)
    (Publisher.start settings.setup settings.streams channelIds b)

theorem follows_handling (b : β) :
    Handling settings (Follows settings channelIds b) where
  handle time input c h := by
    unfold Follows at h ⊢
    rw [handle_marketData, handle_handled, List.map_append, Publisher.run, List.foldl_append, h]
    rfl
  congr h hmarketData _ _ hhandled := by
    unfold Follows at h ⊢
    rw [hmarketData, hhandled, h]

variable {settings} {channelIds}

theorem Follows.channels {b : β} {c : Controller β Qp Qo} (h : Follows settings
    channelIds b c) (channelId : Nat) : (c.marketData.manager.channels channelId).isSome =
      decide (channelId ∈ channelIds) := by
  rw [h]
  exact Publisher.run_channels _ _ _ b _ channelId

end Follows

section Packets
variable {channelIds}

/-- The events that a packet of the capture makes. -/
def eventsOf (c : Controller β Qp Qo) (d : Datagram) :
    List (Nat × Input) :=
  (if c.initialized then [] else [(d.timestamp, .start)]) ++
    (List.range' (c.base d.timestamp + timerFrequency) (ticks (c.base d.timestamp) d.timestamp)
      timerFrequency).map (fun time => (time, .timer 0)) ++
    ((taken settings d).map fun packet => (d.timestamp, .packet packet)).toList

theorem ensureStarted_spec (timestamp : Nat) (c : Controller β Qp Qo) :
    let c' := ensureStarted settings timestamp c
    c'.handled = c.handled ++ (if c.initialized then [] else [(timestamp, .start)]) ∧
      c'.lastTimerUpdate = c.lastTimerUpdate ∧ c'.initialized = true ∧ c'.fatal = c.fatal := by
  unfold ensureStarted
  by_cases hinitialized : c.initialized
  · simp [hinitialized]
  · simp [hinitialized]

/-- Only the historical replay of a channel that exists is fatal. -/
theorem route_spec {b : β} {c : Controller β Qp Qo}
    (h : Follows settings channelIds b c) (hfatal : c.fatal = false)
    (d : Datagram) :
    let c' := route settings d c
    c'.handled = c.handled ++
        ((taken settings d).map fun packet => (d.timestamp, .packet packet)).toList ∧
      c'.lastTimerUpdate = c.lastTimerUpdate ∧ c'.initialized = c.initialized ∧
      c'.fatal = aborts settings channelIds d := by
  unfold route
  cases hfind : settings.config.findAddress d.destinationAddress d.destinationPort with
  | none => simp [taken, aborts, hfind, hfatal]
  | some key =>
    by_cases hincludes : includes key
    · cases htype : key.connectionType with
      | historicalReplay =>
        have hchannel := h.channels key.channelId.toNat
        simp only [hincludes, if_true, dispatch, htype, FeedType.connectionType]
        cases hitem : c.marketData.manager.channels key.channelId.toNat with
        | none =>
          rw [hitem] at hchannel
          simpa [taken, aborts, hfind, hincludes, htype, FeedType.connectionType, hfatal]
            using hchannel
        | some item =>
          rw [hitem] at hchannel
          simpa [taken, aborts, hfind, hincludes, htype, FeedType.connectionType] using hchannel
      | _ =>
        simp [taken, aborts, hfind, hincludes, dispatch, htype, FeedType.connectionType, hfatal]
    · simp [taken, aborts, hfind, hincludes, hfatal]

theorem onDatagram_spec {b : β} {c : Controller β Qp Qo}
    (h : Follows settings channelIds b c) (hfatal : c.fatal = false)
    (d : Datagram) :
    let c' := onDatagram settings c d
    c'.handled = c.handled ++ eventsOf settings c d ∧
      c'.lastTimerUpdate =
        c.base d.timestamp + timerFrequency * ticks (c.base d.timestamp) d.timestamp ∧
      c'.initialized = true ∧ c'.fatal = aborts settings channelIds d := by
  have hfollows := follows_handling settings channelIds b
  have hloop := hfollows.timerLoop d.timestamp (d.timestamp + 1)
    (hfollows.ensureStarted d.timestamp h)
  obtain ⟨hhandled₁, hclock₁, hinitialized₁, hfatal₁⟩ :=
    ensureStarted_spec settings d.timestamp c
  obtain ⟨hclock₂, hhandled₂, hinitialized₂, hfatal₂⟩ := timerLoop_spec settings d.timestamp
    (ensureStarted settings d.timestamp c)
  obtain ⟨hhandled₃, hclock₃, hinitialized₃, hfatal₃⟩ := route_spec settings hloop
    (by rw [hfatal₂, hfatal₁, hfatal]) d
  have hbase : (ensureStarted settings d.timestamp c).base d.timestamp = c.base d.timestamp := by
    unfold base
    rw [hclock₁]
  rw [hbase] at hhandled₂ hclock₂
  simp only [onDatagram, hfatal, Bool.false_eq_true, if_false]
  refine ⟨?_, by rw [hclock₃, hclock₂], by rw [hinitialized₃, hinitialized₂, hinitialized₁],
    hfatal₃⟩
  rw [hhandled₃, hhandled₂, hhandled₁, eventsOf]
  simp only [List.append_assoc]

end Packets

section Seen
variable {settings} {channelIds}

theorem upToAbort_of_any {capture : List Datagram} (h : capture.any (aborts settings channelIds))
    (more : List Datagram) :
    upToAbort settings channelIds (capture ++ more) = upToAbort settings channelIds capture := by
  induction capture with
  | nil => simp at h
  | cons d capture ih =>
    rw [List.cons_append, upToAbort, upToAbort]
    by_cases hd : aborts settings channelIds d
    · rw [if_pos hd, if_pos hd]
    · rw [if_neg hd, if_neg hd, ih (by simpa [hd] using h)]

theorem upToAbort_concat {capture : List Datagram}
    (h : capture.any (aborts settings channelIds) = false) (d : Datagram) :
    upToAbort settings channelIds (capture ++ [d]) = capture ++ [d] := by
  induction capture with
  | nil => simp [upToAbort]
  | cons e capture ih =>
    rw [List.any_cons, Bool.or_eq_false_iff] at h
    rw [List.cons_append, upToAbort, h.1, if_neg Bool.false_ne_true, ih h.2]

theorem upToAbort_of_not_any {capture : List Datagram}
    (h : capture.any (aborts settings channelIds) = false) :
    upToAbort settings channelIds capture = capture := by
  induction capture with
  | nil => rfl
  | cons e capture ih =>
    rw [List.any_cons, Bool.or_eq_false_iff] at h
    rw [upToAbort, h.1, if_neg Bool.false_ne_true, ih h.2]

end Seen

section Clock

theorem firstTime_concat (capture : List Datagram) (d : Datagram) :
    firstTime (capture ++ [d]) =
      if firstTime capture = 0 then d.timestamp else firstTime capture := by
  unfold firstTime
  rw [List.map_append, List.find?_append]
  cases h : (capture.map Datagram.timestamp).find? (· ≠ 0) with
  | none => by_cases hd : d.timestamp = 0 <;> simp [hd]
  | some time =>
    have hne := List.find?_some h
    simp at hne
    simp [hne]

theorem latestTime_concat (capture : List Datagram) (d : Datagram) :
    latestTime (capture ++ [d]) = max (latestTime capture) d.timestamp := by
  simp [latestTime]

theorem latestTime_of_firstTime {capture : List Datagram} (h : firstTime capture = 0) :
    latestTime capture = 0 := by
  induction capture using List.reverseRecOn with
  | nil => rfl
  | append_singleton capture d ih =>
    rw [firstTime_concat] at h
    by_cases hzero : firstTime capture = 0
    · rw [if_pos hzero] at h
      rw [latestTime_concat, ih hzero, h]
      rfl
    · rw [if_neg hzero] at h
      exact absurd h hzero

/-- A timer that has kept up needs the events of the packet alone. -/
theorem ticks_max {first latest : Nat} (timestamp : Nat) :
    ticks first (max latest timestamp) = ticks first latest +
      ticks (first + timerFrequency * ticks first latest) timestamp := by
  unfold ticks timerFrequency
  omega

theorem latest_le (first latest : Nat) :
    latest ≤ first + timerFrequency * ticks first latest := by
  unfold ticks timerFrequency
  omega

/-- The timer goes on from where the capture before the packet has brought it. -/
theorem ticks_concat (capture : List Datagram) (d : Datagram) {c : Controller β Qp Qo}
    (hclock : c.lastTimerUpdate =
      firstTime capture + timerFrequency * ticks (firstTime capture) (latestTime capture)) :
    c.base d.timestamp = firstTime (capture ++ [d]) +
        timerFrequency * ticks (firstTime capture) (latestTime capture) ∧
      ticks (firstTime (capture ++ [d])) (latestTime (capture ++ [d])) =
        ticks (firstTime capture) (latestTime capture) +
          ticks (c.base d.timestamp) d.timestamp := by
  rw [firstTime_concat, latestTime_concat]
  unfold base
  by_cases hzero : firstTime capture = 0
  · have hlatest := latestTime_of_firstTime hzero
    have hnone : ticks 0 0 = 0 := ticks_of_le (Nat.le_refl 0)
    rw [hzero, hlatest, hnone, Nat.mul_zero, Nat.add_zero] at hclock
    rw [if_pos hclock, if_pos hzero, hzero, hlatest, hnone, Nat.zero_max]
    exact ⟨rfl, (Nat.zero_add _).symm⟩
  · have hrunning : c.lastTimerUpdate ≠ 0 := by omega
    rw [if_neg hrunning, if_neg hzero, hclock]
    exact ⟨rfl, ticks_max d.timestamp⟩

/-- The times so far do not change when the next packet is the first with a time. -/
theorem firstTimes_concat (capture : List Datagram) (d : Datagram) :
    List.range' (firstTime capture + timerFrequency)
        (ticks (firstTime capture) (latestTime capture)) timerFrequency =
      List.range' (firstTime (capture ++ [d]) + timerFrequency)
        (ticks (firstTime capture) (latestTime capture)) timerFrequency := by
  rw [firstTime_concat]
  by_cases hzero : firstTime capture = 0
  · rw [hzero, latestTime_of_firstTime hzero, ticks_of_le (Nat.le_refl 0), List.range'_zero,
      List.range'_zero]
  · rw [if_neg hzero]

end Clock

section Handed

/-- What the manager is to get from a capture, the timer apart. -/
def expected (capture : List Datagram) : List (Nat × Input) :=
  (capture.head?.map fun d => (d.timestamp, .start)).toList ++
    capture.filterMap fun d => (taken settings d).map fun packet => (d.timestamp, .packet packet)

/-- A packet comes after the timer events before its time, and up to one period after it. -/
def Due (first : Nat) (before : List (Nat × Input)) (event : Nat × Input) : Prop :=
  ∀ packet, event.2 = .packet packet →
    event.1 ≤ first + timerFrequency * (timerTimes before).length

/-- The state after a capture of which `seen` has been read. -/
structure Handed (b : β) (capture seen : List Datagram) (c : Controller β Qp Qo) : Prop where
  follows : Follows settings channelIds b c
  fatal : c.fatal = capture.any (aborts settings channelIds)
  initialized : c.initialized = !capture.isEmpty
  clock : c.lastTimerUpdate =
    firstTime seen + timerFrequency * ticks (firstTime seen) (latestTime seen)
  untimed : untimed c.handled = expected settings seen
  timers : timerTimes c.handled = List.range' (firstTime seen + timerFrequency)
    (ticks (firstTime seen) (latestTime seen)) timerFrequency
  due : Each (Due (firstTime seen)) c.handled

variable {settings} {channelIds}

theorem expected_concat {capture : List Datagram} {c : Controller β Qp Qo}
    (hinitialized : c.initialized = !capture.isEmpty) (d : Datagram) :
    expected settings (capture ++ [d]) = expected settings capture ++
      untimed (eventsOf settings c d) := by
  have htimers : ∀ times : List Nat,
      (times.map fun time => (time, Input.timer 0)).filter (fun event => !isTimer event.2) = [] := by
    intro times
    simp [List.filter_map, isTimer]
  unfold expected untimed eventsOf
  rw [List.filter_append, List.filter_append, htimers, hinitialized, List.filterMap_append]
  cases capture with
  | nil => cases h : taken settings d <;> simp [isTimer, h]
  | cons e capture => cases h : taken settings d <;> simp [isTimer, h]

theorem timerTimes_append (events recent : List (Nat × Input)) :
    timerTimes (events ++ recent) = timerTimes events ++ timerTimes recent := by
  rw [timerTimes, List.filter_append, List.map_append]
  rfl

@[simp] theorem timerTimes_map_timer (times : List Nat) :
    timerTimes (times.map fun time => (time, .timer 0)) = times := by
  simp [timerTimes, List.filter_map, Function.comp_def, isTimer]

variable (settings) in
theorem timerTimes_eventsOf (c : Controller β Qp Qo) (d : Datagram) :
    timerTimes (eventsOf settings c d) = List.range' (c.base d.timestamp + timerFrequency)
      (ticks (c.base d.timestamp) d.timestamp) timerFrequency := by
  unfold eventsOf
  rw [timerTimes_append, timerTimes_append, timerTimes_map_timer]
  have hpacket : timerTimes
      (((taken settings d).map fun packet => (d.timestamp, Input.packet packet)).toList) = [] := by
    cases taken settings d <;> rfl
  have hstart : timerTimes (if c.initialized then [] else [(d.timestamp, .start)]) = [] := by
    split <;> rfl
  rw [hpacket, hstart, List.append_nil, List.nil_append]

/-- All timer events that a packet calls for come before it. -/
theorem due_eventsOf {first : Nat} {history : List (Nat × Input)} (c : Controller β Qp Qo)
    (d : Datagram) (h : Each (Due first) history)
    (hlate : d.timestamp ≤ first + timerFrequency *
      ((timerTimes history).length + ticks (c.base d.timestamp) d.timestamp)) :
    Each (Due first) (history ++ eventsOf settings c d) := by
  have htimes := timerTimes_eventsOf settings c d
  unfold eventsOf at htimes ⊢
  generalize hearly : (if c.initialized then [] else [(d.timestamp, Input.start)]) ++
    (List.range' (c.base d.timestamp + timerFrequency) (ticks (c.base d.timestamp) d.timestamp)
      timerFrequency).map (fun time => (time, Input.timer 0)) = early at htimes ⊢
  have hpackets : ∀ event ∈ early, ∀ packet, event.2 ≠ .packet packet := by
    intro event hm packet he
    rw [← hearly, List.mem_append] at hm
    cases hm with
    | inl hm =>
      split at hm
      · cases hm
      · cases List.mem_singleton.1 hm
        cases he
    | inr hm =>
      obtain ⟨time, -, rfl⟩ := List.mem_map.1 hm
      cases he
  have hcount : (timerTimes early).length = ticks (c.base d.timestamp) d.timestamp := by
    cases htaken : taken settings d with
    | none => simpa [htaken] using congrArg List.length htimes
    | some packet =>
      simpa [htaken, timerTimes_append, timerTimes, isTimer] using congrArg List.length htimes
  rw [← List.append_assoc]
  apply each_append
  · apply each_append h
    intro before event after he packet hp
    refine absurd hp (hpackets event ?_ packet)
    rw [he]
    simp
  · intro before event after he packet _
    cases htaken : taken settings d with
    | none => simp [htaken] at he
    | some value =>
      rw [htaken, Option.map_some, Option.toList_some, eq_comm, List.append_eq_singleton_iff] at he
      obtain ⟨rfl, he⟩ | ⟨-, he⟩ := he
      · obtain ⟨rfl, -⟩ := List.cons.inj he
        rw [List.append_nil, timerTimes_append, List.length_append, hcount]
        exact hlate
      · cases he

theorem Handed.onDatagram {b : β} {capture : List Datagram} {c : Controller β Qp Qo}
    (h : Handed settings channelIds b capture (upToAbort settings channelIds capture) c)
    (d : Datagram) :
    Handed settings channelIds b (capture ++ [d])
      (upToAbort settings channelIds (capture ++ [d])) (onDatagram settings c d) := by
  have hfollows := (follows_handling settings channelIds b).onDatagram d h.follows
  cases hfatal : c.fatal with
  | true =>
    have hany := h.fatal.symm.trans hfatal
    have hstay : Controller.onDatagram settings c d = c := by
      unfold Controller.onDatagram
      rw [if_pos hfatal]
    rw [upToAbort_of_any hany, hstay]
    refine ⟨h.follows, ?_, ?_, h.clock, h.untimed, h.timers, h.due⟩
    · rw [List.any_append, hany, hfatal, Bool.true_or]
    · rw [h.initialized]
      cases capture with
      | nil => simp at hany
      | cons e capture => rfl
  | false =>
    have hany := h.fatal.symm.trans hfatal
    have hseen := upToAbort_of_not_any hany
    obtain ⟨hhandled, hclock, hinitialized, hfatal'⟩ := onDatagram_spec settings h.follows hfatal d
    rw [upToAbort_concat hany]
    rw [hseen] at h
    obtain ⟨hbase, hticks⟩ := ticks_concat capture d h.clock
    refine ⟨hfollows, ?_, ?_, ?_, ?_, ?_, ?_⟩
    · rw [hfatal', List.any_append, hany]
      simp
    · rw [hinitialized]
      cases capture <;> rfl
    · rw [hclock, hticks, hbase, Nat.mul_add]
      omega
    · rw [hhandled, expected_concat h.initialized, ← h.untimed]
      exact List.filter_append _ _
    · rw [hhandled, timerTimes_append, timerTimes_eventsOf, hticks, h.timers,
        firstTimes_concat capture d, hbase, Nat.add_right_comm, List.range'_append]
    · rw [hhandled]
      apply due_eventsOf
      · intro before event after he packet hp
        refine (h.due before event after he packet hp).trans ?_
        rw [firstTime_concat]
        split
        · omega
        · exact Nat.le_refl _
      · rw [h.timers, List.length_range', ← hticks]
        refine le_trans ?_ (latest_le _ _)
        rw [latestTime_concat]
        exact Nat.le_max_right _ _

theorem start_handed (b : β) : Handed settings channelIds b [] [] (start settings channelIds b) := by
  have hnone : ticks (firstTime []) (latestTime []) = 0 := ticks_of_le (Nat.le_refl _)
  refine ⟨rfl, rfl, rfl, ?_, rfl, ?_, each_nil _⟩
  · rw [hnone, Nat.mul_zero]
    rfl
  · rw [hnone, List.range'_zero]
    rfl

theorem run_handed (b : β) (capture : List Datagram) :
    Handed settings channelIds b capture (upToAbort settings channelIds capture)
      (run settings capture (start settings channelIds b)) := by
  induction capture using List.reverseRecOn with
  | nil => exact start_handed b
  | append_singleton capture d ih =>
    have hstep := ih.onDatagram d
    simpa [Controller.run] using hstep

end Handed

section Known
variable {settings} {channelIds}

/-- Timer events do not matter. -/
theorem filter_untimed (events : List (Nat × Input)) :
    (events.map Prod.snd).filter (Input.matters channelIds) =
      ((untimed events).map Prod.snd).filter (Input.matters channelIds) := by
  unfold untimed
  rw [List.filter_map, List.filter_map, List.filter_filter]
  congr 2
  funext event
  cases h : event.2 with
  | timer now => simp [Function.comp_apply, h, Input.matters, isTimer]
  | _ => simp [Function.comp_apply, h, isTimer]

variable (settings channelIds) in
/-- The packets of a capture that come to a channel. -/
def known (capture : List Datagram) : List Packet :=
  (capture.filterMap (taken settings)).filter fun packet => packet.channelId ∈ channelIds

theorem filter_expected {capture : List Datagram} (hne : capture ≠ []) :
    ((expected settings capture).map Prod.snd).filter (Input.matters channelIds) =
      .start :: (known settings channelIds capture).map .packet := by
  have hpackets : ∀ ds : List Datagram, ((ds.filterMap fun d => (taken settings d).map
        fun packet => (d.timestamp, Input.packet packet)).map Prod.snd) =
      (ds.filterMap (taken settings)).map .packet := by
    intro ds
    rw [List.map_filterMap, List.map_filterMap]
    congr 1
    funext d
    cases taken settings d <;> rfl
  have hknown : ((capture.filterMap (taken settings)).map Input.packet).filter
      (Input.matters channelIds) = (known settings channelIds capture).map .packet :=
    List.filter_map
  unfold expected
  rw [List.map_append, List.filter_append, hpackets, hknown]
  cases capture with
  | nil => exact absurd rfl hne
  | cons d capture => rfl

/-- The manager depends on the packets that come to its channels, and on nothing else. -/
theorem run_known (b : β) {capture : List Datagram} (hne : capture ≠ [])
    (haborts : ∀ d ∈ capture, aborts settings channelIds d = false) :
    (run settings capture (start settings channelIds b)).marketData =
      Publisher.run settings.setup settings.streams
        (.start :: (known settings channelIds capture).map .packet)
        (Publisher.start settings.setup settings.streams channelIds b) := by
  have h : Handed settings channelIds b capture (upToAbort settings channelIds capture)
      (run settings capture (start settings channelIds b)) := run_handed b capture
  have hany : capture.any (aborts settings channelIds) = false := by
    rw [List.any_eq_false]
    intro d hd
    rw [haborts d hd]
    exact Bool.false_ne_true
  rw [upToAbort_of_not_any hany] at h
  rw [h.follows, Publisher.run_matters, filter_untimed, h.untimed, filter_expected hne]

end Known

end Controller
end RoqCme.Import
