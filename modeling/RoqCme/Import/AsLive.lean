import RoqCme.Gateway.Receivers
import RoqCme.Import.Events

/-! The import takes the feeds of a capture like the gateway takes them from its sockets ("same as
live"): what the sockets gave, in the order in which they were read, leads to the same manager and
to a log of what the gateway published. -/
namespace RoqCme.Import
open RoqCme.Mdp RoqCme.MarketData RoqCme.Gateway RoqCme.Gateway.Multicast RoqCme.Lib
variable {β Qp Qo : Type}

section Feeds
variable {settings : Settings β Qp Qo} {it : Iteration} {fromChars : ConfigReader.FromChars}
  {calls : List (UInt16 × ConfigReader.Channel)} {secdefConfigFile : String}
  {channelIds : List UInt16}

/-- The import takes what comes to a socket as a packet of the feed of that socket. -/
theorem taken_of_socket (hconfig : settings.config = Config.create it fromChars calls)
    (hshares : ∀ key connection, settings.config.connections.find key = some connection →
      ¬ settings.config.Shares key connection) {r : MDPReceiver}
    (hkey : r.key ∈ receiverKeys secdefConfigFile channelIds)
    (haddress : getMulticastConfig settings.config r.key = some r.address)
    {connectionType : ConnectionType}
    (htype : r.key.connectionType.connectionType = some connectionType) {d : Datagram}
    (hd : r.address = (d.destinationAddress, d.destinationPort)) :
    Controller.taken settings d =
      some ⟨r.key.channelId.toNat, connectionType, r.key.priority, d.payload⟩ := by
  obtain ⟨connection, hfind, hpair⟩ := Option.map_eq_some_iff.1 haddress
  have hback := Config.create_findAddress (hconfig ▸ hfind)
    (hconfig ▸ hshares r.key connection hfind)
  rw [hd, Prod.mk.injEq] at hpair
  rw [← hconfig, hpair.1, hpair.2] at hback
  have hincludes := ((mem_receiverKeys_iff r.key).1 hkey).2.1
  simp [Controller.taken, hback, hincludes, htype]

end Feeds

section Playing
variable (settings : Settings β Qp Qo) (secdefConfigFile : String) (channelIds : List UInt16)

/-- The inputs for the manager of what was received. -/
def played (received : List Datagram) : List Input :=
  .start :: (received.filterMap (Controller.taken settings)).map .packet

/-- The manager of the gateway has had what the import makes of the packets received. -/
structure Plays (b : β) (m : Multicast β Qp Qo) : Prop where
  wired : ∀ r ∈ m.receivers, r.key ∈ receiverKeys secdefConfigFile channelIds ∧
    getMulticastConfig settings.config r.key = some r.address ∧
    ∀ d ∈ r.pending, r.address = (d.destinationAddress, d.destinationPort)
  history : m.marketData = Publisher.run settings.setup settings.streams
    (played settings (m.received.map Prod.snd))
    (Publisher.start settings.setup settings.streams (channelIds.map UInt16.toNat) b)

variable {settings} {secdefConfigFile} {channelIds}

/-- Timers and the stop. -/
theorem Plays.idle {b : β} {m : Multicast β Qp Qo}
    (h : Plays settings secdefConfigFile channelIds b m) {input : Input}
    (hinput : input.matters (channelIds.map UInt16.toNat) = false) :
    m.marketData.step settings.setup settings.streams input = m.marketData := by
  rw [h.history]
  exact Publisher.step_of_not_matters
    (Publisher.run_lastUpdateTime _ fun _ => rfl) (Publisher.run_channels _ _ _ b _) hinput

theorem Plays.readAll {b : β} {it : Iteration} {fromChars : ConfigReader.FromChars}
    {calls : List (UInt16 × ConfigReader.Channel)}
    (hconfig : settings.config = Config.create it fromChars calls)
    (hshares : ∀ key connection, settings.config.connections.find key = some connection →
      ¬ settings.config.Shares key connection) {r : MDPReceiver}
    (hkey : r.key ∈ receiverKeys secdefConfigFile channelIds)
    (haddress : getMulticastConfig settings.config r.key = some r.address) (index : Nat)
    (pending : List Datagram)
    (hpending : ∀ d ∈ pending, r.address = (d.destinationAddress, d.destinationPort))
    {m : Multicast β Qp Qo} (h : Plays settings secdefConfigFile channelIds b m) :
    Plays settings secdefConfigFile channelIds b
      (Multicast.readAll settings.setup settings.streams index r.key pending m).2 := by
  induction pending generalizing m with
  | nil => exact h
  | cons d pending ih =>
    unfold Multicast.readAll
    split
    · exact h
    · refine ih (fun e he => hpending e (List.mem_cons_of_mem d he)) ?_
      unfold Multicast.dispatch
      split
      · next connectionType htype =>
        have htaken := taken_of_socket hconfig hshares hkey haddress htype (d := recv d)
          (hpending d List.mem_cons_self)
        refine ⟨h.wired, ?_⟩
        simp only [played, List.map_append, List.filterMap_append, List.map_cons, List.map_nil,
          List.filterMap_cons_some htaken, List.filterMap_nil]
        rw [← List.cons_append, Publisher.run, List.foldl_append]
        have hhistory := h.history
        rw [Publisher.run, played] at hhistory
        rw [← hhistory]
        rfl
      · exact h

theorem Plays.step {b : β} {it : Iteration} {fromChars : ConfigReader.FromChars}
    {calls : List (UInt16 × ConfigReader.Channel)}
    (hconfig : settings.config = Config.create it fromChars calls)
    (hshares : ∀ key connection, settings.config.connections.find key = some connection →
      ¬ settings.config.Shares key connection) {m : Multicast β Qp Qo}
    (h : Plays settings secdefConfigFile channelIds b m) (event : NetworkEvent) :
    Plays settings secdefConfigFile channelIds b
      (m.step settings.setup settings.streams event) := by
  cases event with
  | timer now =>
    refine ⟨h.wired, ?_⟩
    simp only [Multicast.step]
    rw [h.idle rfl]
    exact h.history
  | stop => exact h
  | arrive d =>
    refine ⟨?_, h.history⟩
    intro r hr
    obtain ⟨r, hmem, rfl⟩ := List.mem_map.1 hr
    obtain ⟨hkey, haddress, hpending⟩ := h.wired r hmem
    unfold Multicast.deliver
    split
    · next hd =>
      refine ⟨hkey, haddress, ?_⟩
      intro e he
      cases List.mem_append.1 he with
      | inl he => exact hpending e he
      | inr he =>
        cases List.mem_singleton.1 he
        exact hd
    · exact ⟨hkey, haddress, hpending⟩
  | read index =>
    simp only [Multicast.step]
    split
    · next r hr =>
      obtain ⟨hkey, haddress, hpending⟩ := h.wired r (List.mem_of_getElem? hr)
      have hread := h.readAll hconfig hshares hkey haddress index r.pending hpending
      refine ⟨?_, hread.history⟩
      intro s hs
      obtain ⟨-, -, -, hrest, -⟩ := readAll_received settings.setup settings.streams
        (receiverKeys_connectionType hkey) index r.pending m
      obtain ⟨i, hi⟩ := List.mem_iff_getElem?.1 hs
      simp only [setPending, readAll_receivers] at hi
      by_cases he : index = i
      · subst he
        rw [List.getElem?_modify_eq, hr] at hi
        cases hi
        exact ⟨hkey, haddress, fun d hd => hpending d (hrest d hd)⟩
      · exact h.wired s (List.mem_of_getElem? (by simpa [List.getElem?_modify, he] using hi))
    · exact h

theorem Plays.run {b : β} {it : Iteration} {fromChars : ConfigReader.FromChars}
    {calls : List (UInt16 × ConfigReader.Channel)}
    (hconfig : settings.config = Config.create it fromChars calls)
    (hshares : ∀ key connection, settings.config.connections.find key = some connection →
      ¬ settings.config.Shares key connection) {m : Multicast β Qp Qo}
    (h : Plays settings secdefConfigFile channelIds b m) (events : List NetworkEvent) :
    Plays settings secdefConfigFile channelIds b
      (Multicast.run settings.setup settings.streams events m) := by
  induction events generalizing m with
  | nil => exact h
  | cons event events ih => exact ih (h.step hconfig hshares event)

end Playing

section Replaying
variable {settings : Settings β Qp Qo} {channelIds : List UInt16}

end Replaying

end RoqCme.Import
