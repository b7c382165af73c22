import RoqCme.Import.Controller

/-! The multicast side of the gateway: one socket for each feed of `gateway/controller`, read by
`gateway/mdp_receiver` until it gives nothing. -/
namespace RoqCme.Gateway
open RoqCme.Mdp RoqCme.MarketData RoqCme.Import RoqCme.Lib
variable {β Qp Qo : Type}

/-- The size of `shared_.buffer`. -/
def bufferSize : Nat := 4096

/-- The feeds of `create_mdp_receivers`, in order. -/
def receiverKeys (secdefConfigFile : String) (channelIds : List UInt16) : List FeedKey :=
  channelIds.flatMap fun channelId =>
    (if secdefConfigFile.isEmpty then [⟨channelId, .instrumentDefinition, .primary⟩] else []) ++
      [⟨channelId, .mbpMarketRecovery, .primary⟩, ⟨channelId, .mbofdMarketRecovery, .primary⟩,
        ⟨channelId, .incremental, .primary⟩, ⟨channelId, .incremental, .secondary⟩]

/-- The feed objects of the manager take their names when they are made. -/
def managerKeys (channelIds : List UInt16) : List FeedKey :=
  channelIds.flatMap fun channelId =>
    [FeedType.instrumentDefinition, .mbpMarketRecovery, .mbofdMarketRecovery,
      .incremental].flatMap fun type => [⟨channelId, type, .primary⟩, ⟨channelId, type, .secondary⟩]

/-- A socket with the packets that it has and that were not read so far. -/
structure MDPReceiver where
  key : FeedKey
  address : String × UInt16
  pending : List Datagram := []
  deriving DecidableEq, Repr

/-- No result is the exception of the source. -/
def getMulticastConfig (config : Mdp.Config) (key : FeedKey) : Option (String × UInt16) :=
  (config.find key.channelId key.connectionType key.priority).map fun connection =>
    (connection.multicastAddress, connection.port)

/-- The constructor; the name is that of the feed object of the manager. -/
def MDPReceiver.create (config : Mdp.Config) (key : FeedKey) : Option MDPReceiver := do
  let _ ← config.getName key.channelId key.connectionType key.priority
  let address ← getMulticastConfig config key
  return { key := key, address := address }

def createMdpReceivers (config : Mdp.Config) (secdefConfigFile : String)
    (channelIds : List UInt16) : Option (List MDPReceiver) :=
  (receiverKeys secdefConfigFile channelIds).mapM (MDPReceiver.create config)

/-- What the network and the server bring. -/
inductive NetworkEvent where
  | timer (now : Nat)
  | stop
  | arrive (value : Datagram)
  | read (index : Nat)
  deriving DecidableEq, Repr

/-- `received` keeps what the sockets have given, in order, with the number of the socket; history
only. -/
structure Multicast (β Qp Qo : Type) where
  marketData : Publisher β Qp Qo
  receivers : List MDPReceiver
  received : List (Nat × Datagram) := []

namespace Multicast
variable (S : Setup β Qp Qo) (streams : StreamSettings)

/-- `Manager::dispatch`; there is no receiver for the historical replay. -/
def dispatch (index : Nat) (key : FeedKey) (d : Datagram) (m : Multicast β Qp Qo) :
    Multicast β Qp Qo :=
  match key.connectionType.connectionType with
  | some connectionType =>
    { m with
      marketData := m.marketData.step S streams
        (.packet ⟨key.channelId.toNat, connectionType, key.priority, d.payload⟩)
      received := m.received ++ [(index, d)] }
  | none => m

/-- What `recv` gives: a packet that does not fit is cut. -/
def recv (d : Datagram) : Datagram := { d with payload := d.payload.take bufferSize }

/-- The loop ends at zero bytes, also those of an empty packet. -/
def readAll (index : Nat) (key : FeedKey) : List Datagram → Multicast β Qp Qo →
    List Datagram × Multicast β Qp Qo
  | [], m => ([], m)
  | d :: pending, m =>
    if (recv d).payload.isEmpty then (pending, m)
    else readAll index key pending (dispatch S streams index key (recv d) m)

/-- The packet goes to every socket of its address. -/
def deliver (d : Datagram) (r : MDPReceiver) : MDPReceiver :=
  if r.address = (d.destinationAddress, d.destinationPort) then
    { r with pending := r.pending ++ [d] }
  else r

/-- What is left in a socket. -/
def setPending (index : Nat) (pending : List Datagram) (m : Multicast β Qp Qo) :
    Multicast β Qp Qo :=
  { m with receivers := m.receivers.modify index fun r => { r with pending := pending } }

def step (m : Multicast β Qp Qo) : NetworkEvent → Multicast β Qp Qo
  | .timer now => { m with marketData := m.marketData.step S streams (.timer now) }
  | .stop => { m with marketData := m.marketData.step S streams .stop }
  | .arrive d => { m with receivers := m.receivers.map (deliver d) }
  | .read index =>
    match m.receivers[index]? with
    | some r =>
      let (pending, m) := readAll S streams index r.key r.pending m
      m.setPending index pending
    | none => m

def run (events : List NetworkEvent) (m : Multicast β Qp Qo) : Multicast β Qp Qo :=
  events.foldl (step S streams) m

/-- The server starts the gateway before anything else. -/
def start (receivers : List MDPReceiver) (channelIds : List Nat) (b : β) : Multicast β Qp Qo :=
  { marketData := (Publisher.start S streams channelIds b).step S streams .start
    receivers := receivers }

section Reading

/-- What the manager can get of a packet. -/
def cut (d : Datagram) : Option Datagram :=
  if (recv d).payload.isEmpty then none else some (recv d)

/-- The packets for an address. -/
def arrivals (address : String × UInt16) (events : List NetworkEvent) : List Datagram :=
  events.filterMap fun event =>
    match event with
    | .arrive d => if address = (d.destinationAddress, d.destinationPort) then some d else none
    | _ => none

theorem arrivals_append (address : String × UInt16) (events recent : List NetworkEvent) :
    arrivals address (events ++ recent) = arrivals address events ++ arrivals address recent :=
  List.filterMap_append

theorem arrivals_read (address : String × UInt16) (events : List NetworkEvent) (index : Nat) :
    arrivals address (events ++ [.read index]) = arrivals address events := by
  rw [arrivals_append]
  exact List.append_nil _

/-- What a socket has given. -/
def handedTo (index : Nat) (m : Multicast β Qp Qo) : List Datagram :=
  (m.received.filter fun e => e.1 == index).map Prod.snd

theorem readAll_receivers (index : Nat) (key : FeedKey) (pending : List Datagram)
    (m : Multicast β Qp Qo) :
    (readAll S streams index key pending m).2.receivers = m.receivers := by
  induction pending generalizing m with
  | nil => rfl
  | cons d pending ih =>
    unfold readAll
    split
    · rfl
    · rw [ih]
      unfold dispatch
      split
      · rfl
      · rfl

theorem handedTo_setPending (other index : Nat) (pending : List Datagram)
    (m : Multicast β Qp Qo) : (m.setPending index pending).handedTo other = m.handedTo other :=
  rfl

/-- The loop hands on what it takes from the socket, under the number of the socket. -/
theorem readAll_received {key : FeedKey} (hkey : key.connectionType.connectionType ≠ none)
    (index : Nat) (pending : List Datagram) (m : Multicast β Qp Qo) :
    let result := readAll S streams index key pending m
    ∃ got : List Datagram, result.2.received = m.received ++ got.map (fun d => (index, d)) ∧
      pending.filterMap cut = got ++ result.1.filterMap cut ∧ (∀ d ∈ result.1, d ∈ pending) ∧
      ((∀ d ∈ pending, cut d ≠ none) → result.1 = []) := by
  induction pending generalizing m with
  | nil => exact ⟨[], by simp [readAll]⟩
  | cons d pending ih =>
    unfold readAll
    by_cases hempty : (recv d).payload.isEmpty
    · have hcut : cut d = none := if_pos hempty
      simp only [if_pos hempty]
      refine ⟨[], by simp, by simp [hcut], fun e he => List.mem_cons_of_mem d he, ?_⟩
      intro hall
      exact absurd hcut (hall d List.mem_cons_self)
    · have hcut : cut d = some (recv d) := if_neg hempty
      simp only [if_neg hempty]
      obtain ⟨got, hreceived, hflow, hrest, hdrained⟩ := ih (dispatch S streams index key (recv d) m)
      refine ⟨recv d :: got, ?_, ?_, fun e he => List.mem_cons_of_mem d (hrest e he), ?_⟩
      · rw [hreceived]
        unfold dispatch
        split
        · simp
        · next hnone => exact absurd hnone hkey
      · rw [List.filterMap_cons_some hcut, hflow, List.cons_append]
      · intro hall
        exact hdrained fun e he => hall e (List.mem_cons_of_mem d he)

theorem handedTo_append {m m' : Multicast β Qp Qo} {index : Nat} {got : List Datagram}
    (h : m'.received = m.received ++ got.map fun d => (index, d)) (other : Nat) :
    m'.handedTo other = m.handedTo other ++ if index = other then got else [] := by
  unfold handedTo
  rw [h, List.filter_append, List.map_append]
  congr 1
  by_cases he : index = other
  · subst he
    simp [List.filter_map, Function.comp_def]
  · simp [List.filter_map, Function.comp_def, he]

end Reading

section Conservation

/-- Every packet for a socket was handed on or is still there, in order. -/
structure Conserves (receivers : List MDPReceiver) (events : List NetworkEvent)
    (m : Multicast β Qp Qo) : Prop where
  sockets : ∀ index r, receivers[index]? = some r → ∃ pending,
    m.receivers[index]? = some { r with pending := pending } ∧
      m.handedTo index ++ pending.filterMap cut = (arrivals r.address events).filterMap cut ∧
      ∀ d ∈ pending, d ∈ arrivals r.address events
  length : m.receivers.length = receivers.length

theorem Conserves.arrive {receivers : List MDPReceiver} {events : List NetworkEvent}
    {m : Multicast β Qp Qo} (h : Conserves receivers events m) (d : Datagram) :
    Conserves receivers (events ++ [.arrive d]) (m.step S streams (.arrive d)) := by
  refine ⟨?_, by simp only [step, List.length_map, h.length]⟩
  intro index r hr
  obtain ⟨pending, hindex, hflow, hcame⟩ := h.sockets index r hr
  have harrivals : arrivals r.address (events ++ [.arrive d]) = arrivals r.address events ++
      if r.address = (d.destinationAddress, d.destinationPort) then [d] else [] := by
    rw [arrivals_append]
    by_cases haddress : r.address = (d.destinationAddress, d.destinationPort)
    · simp [arrivals, haddress]
    · simp [arrivals, haddress]
  have hhanded : (m.step S streams (.arrive d)).handedTo index = m.handedTo index := rfl
  rw [harrivals, hhanded, List.filterMap_append, ← hflow, List.append_assoc]
  simp only [step, List.getElem?_map, hindex, Option.map_some, deliver]
  by_cases haddress : r.address = (d.destinationAddress, d.destinationPort)
  · rw [if_pos haddress, if_pos haddress]
    refine ⟨pending ++ [d], rfl, by rw [List.filterMap_append], ?_⟩
    intro e he
    rw [List.mem_append] at he ⊢
    exact he.imp_left (hcame e)
  · rw [if_neg haddress, if_neg haddress]
    refine ⟨pending, rfl, by rw [List.filterMap_nil, List.append_nil], ?_⟩
    intro e he
    rw [List.append_nil]
    exact hcame e he

/-- Events that bring nothing to the sockets. -/
theorem Conserves.quiet {receivers : List MDPReceiver} {events : List NetworkEvent}
    {m m' : Multicast β Qp Qo} (h : Conserves receivers events m) {event : NetworkEvent}
    (hevent : ∀ address, arrivals address [event] = []) (hreceivers : m'.receivers = m.receivers)
    (hreceived : m'.received = m.received) : Conserves receivers (events ++ [event]) m' := by
  refine ⟨?_, by rw [hreceivers, h.length]⟩
  intro index r hr
  have harrivals : arrivals r.address (events ++ [event]) = arrivals r.address events := by
    rw [arrivals_append, hevent r.address, List.append_nil]
  have hhanded : m'.handedTo index = m.handedTo index := by
    unfold handedTo
    rw [hreceived]
  rw [hreceivers, harrivals, hhanded]
  exact h.sockets index r hr

/-- After a loop that met no empty packet, the socket has nothing left. -/
theorem Conserves.read {receivers : List MDPReceiver} {events : List NetworkEvent}
    {m : Multicast β Qp Qo} (h : Conserves receivers events m)
    (hkeys : ∀ r ∈ receivers, r.key.connectionType.connectionType ≠ none) (index : Nat) :
    let m' := m.step S streams (.read index)
    Conserves receivers (events ++ [.read index]) m' ∧
      ∀ r, m.receivers[index]? = some r → (∀ d ∈ r.pending, cut d ≠ none) →
        m'.receivers[index]? = some { r with pending := [] } := by
  cases hindex : m.receivers[index]? with
  | none =>
    have hsame : m.step S streams (.read index) = m := by simp only [Multicast.step, hindex]
    rw [hsame]
    exact ⟨h.quiet (fun _ => rfl) rfl rfl, by simp⟩
  | some r =>
    have hlt : index < receivers.length := by
      rw [← h.length]
      exact (List.getElem?_eq_some_iff.1 hindex).1
    obtain ⟨pending, hpending, -, -⟩ := h.sockets index _ (List.getElem?_eq_getElem hlt)
    rw [hindex, Option.some.injEq] at hpending
    have hkey : r.key.connectionType.connectionType ≠ none := by
      rw [hpending]
      exact hkeys receivers[index] (List.getElem_mem hlt)
    obtain ⟨got, hreceived, hflow, hrest, hdrained⟩ :=
      readAll_received S streams hkey index r.pending m
    have hreceivers := readAll_receivers S streams index r.key r.pending m
    have hstep : m.step S streams (.read index) =
        (readAll S streams index r.key r.pending m).2.setPending index
          (readAll S streams index r.key r.pending m).1 := by
      simp only [Multicast.step, hindex]
    rw [hstep]
    refine ⟨⟨?_, ?_⟩, ?_⟩
    · intro other s hs
      obtain ⟨pending', hother, hflow', hcame⟩ := h.sockets other s hs
      rw [arrivals_read, ← hflow', handedTo_setPending, handedTo_append hreceived other]
      simp only [setPending, hreceivers]
      by_cases he : index = other
      · subst he
        rw [hindex, Option.some.injEq] at hother
        rw [hother] at hflow
        refine ⟨(readAll S streams index r.key r.pending m).1, ?_, ?_, ?_⟩
        · rw [List.getElem?_modify_eq, hindex, hother]
          rfl
        · rw [if_pos rfl, List.append_assoc, hflow, hother]
        · intro d hd
          have hd := hrest d hd
          rw [hother] at hd
          exact hcame d hd
      · refine ⟨pending', by simp [he, hother], ?_, hcame⟩
        rw [if_neg he, List.append_nil]
    · simp only [setPending, List.length_modify, hreceivers, h.length]
    · intro s hs hall
      cases hs
      simp only [setPending, hreceivers, List.getElem?_modify_eq, hindex, hdrained hall]
      rfl

theorem Conserves.step {receivers : List MDPReceiver} {events : List NetworkEvent}
    {m : Multicast β Qp Qo} (h : Conserves receivers events m)
    (hkeys : ∀ r ∈ receivers, r.key.connectionType.connectionType ≠ none)
    (event : NetworkEvent) :
    Conserves receivers (events ++ [event]) (m.step S streams event) := by
  cases event with
  | timer now => exact h.quiet (fun _ => rfl) rfl rfl
  | stop => exact h.quiet (fun _ => rfl) rfl rfl
  | arrive d => exact h.arrive S streams d
  | read index => exact (h.read S streams hkeys index).1

theorem Conserves.run {receivers : List MDPReceiver} {before : List NetworkEvent}
    {m : Multicast β Qp Qo} (h : Conserves receivers before m)
    (hkeys : ∀ r ∈ receivers, r.key.connectionType.connectionType ≠ none)
    (events : List NetworkEvent) :
    Conserves receivers (before ++ events) (run S streams events m) := by
  induction events generalizing before m with
  | nil => simpa [Multicast.run] using h
  | cons event events ih =>
    have hrest := ih (h.step S streams hkeys event)
    rw [List.append_assoc] at hrest
    exact hrest

end Conservation

section Created
variable {config : Mdp.Config} {secdefConfigFile : String} {channelIds : List UInt16}

/-- The gateway has sockets for the feeds that the import takes, apart from the instrument
definitions when it has a secdef file. -/
theorem mem_receiverKeys_iff (key : FeedKey) :
    key ∈ receiverKeys secdefConfigFile channelIds ↔
      key.channelId ∈ channelIds ∧ includes key ∧ key.connectionType ≠ .historicalReplay ∧
        (secdefConfigFile.isEmpty ∨ key.connectionType ≠ .instrumentDefinition) := by
  have hmem : key ∈ receiverKeys secdefConfigFile channelIds ↔ ∃ channelId ∈ channelIds,
      (secdefConfigFile.isEmpty ∧ key = ⟨channelId, .instrumentDefinition, .primary⟩) ∨
        key = ⟨channelId, .mbpMarketRecovery, .primary⟩ ∨
        key = ⟨channelId, .mbofdMarketRecovery, .primary⟩ ∨
        key = ⟨channelId, .incremental, .primary⟩ ∨
        key = ⟨channelId, .incremental, .secondary⟩ := by
    simp only [receiverKeys, List.mem_flatMap, List.mem_append, List.mem_cons, List.not_mem_nil,
      or_false]
    by_cases hempty : secdefConfigFile.isEmpty <;> simp [hempty]
  rw [hmem]
  obtain ⟨channelId, connectionType, priority⟩ := key
  cases connectionType with
  | historicalReplay => simp
  | _ => cases priority <;> simp [includes]

theorem receiverKeys_connectionType {key : FeedKey}
    (h : key ∈ receiverKeys secdefConfigFile channelIds) :
    key.connectionType.connectionType ≠ none := by
  have hne := ((mem_receiverKeys_iff key).1 h).2.2.1
  cases htype : key.connectionType with
  | historicalReplay => exact absurd htype hne
  | _ => simp [FeedType.connectionType]

theorem mem_managerKeys {key : FeedKey} (h : key ∈ receiverKeys secdefConfigFile channelIds) :
    key ∈ managerKeys channelIds := by
  obtain ⟨hchannel, -, hne, -⟩ := (mem_receiverKeys_iff key).1 h
  refine List.mem_flatMap.2 ⟨key.channelId, hchannel, ?_⟩
  obtain ⟨channelId, connectionType, priority⟩ := key
  cases connectionType with
  | historicalReplay => exact absurd rfl hne
  | _ => cases priority <;> simp

/-- A gateway whose manager could be made has all its receivers. -/
theorem createMdpReceivers_isSome (it : Iteration) (fromChars : ConfigReader.FromChars)
    (calls : List (UInt16 × ConfigReader.Channel))
    (h : ∀ key ∈ managerKeys channelIds, ((Config.create it fromChars calls).getName key.channelId
      key.connectionType key.priority).isSome) :
    (createMdpReceivers (Config.create it fromChars calls) secdefConfigFile channelIds).isSome := by
  apply isSome_mapM
  intro key hkey
  have hname := h key (mem_managerKeys hkey)
  rw [Config.create_getName, Option.isSome_map] at hname
  obtain ⟨connection, hfind⟩ := Option.isSome_iff_exists.1 hname
  simp [MDPReceiver.create, Config.create_getName, getMulticastConfig, hfind]

end Created

end Multicast
end RoqCme.Gateway
