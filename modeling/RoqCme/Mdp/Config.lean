import RoqCme.Lib.Table
import RoqCme.MarketData.Channel
import RoqCme.Mdp.ConfigReader

/-! The multicast configuration (`protocol/mdp/config`): from a feed to its address and back. The
maps are hash maps, and which of two entries wins depends on the order of iteration at two places:
the connections of a channel, and the feeds that share an address. -/
namespace RoqCme.Mdp
open RoqCme.Lib
open RoqCme.MarketData (Priority)

/-- `protocol::mdp::ConnectionType` -/
inductive FeedType where
  | historicalReplay | instrumentDefinition | mbpMarketRecovery | mbofdMarketRecovery | incremental
  deriving DecidableEq, Repr

/-- The keys of the nested maps. -/
structure FeedKey where
  channelId : UInt16
  connectionType : FeedType
  priority : Priority
  deriving DecidableEq, Repr

/-- `Config::Connection` -/
structure Connection where
  multicastAddress : String
  port : UInt16
  name : String
  deriving DecidableEq, Repr

/-- No result is the exception of the source. -/
def getType (value : String) : Option FeedType :=
  if value = "H" then some .historicalReplay
  else if value = "N" then some .instrumentDefinition
  else if value = "S" then some .mbpMarketRecovery
  else if value = "SMBO" then some .mbofdMarketRecovery
  else if value = "I" then some .incremental
  else none

def getPriority (value : String) : Option Priority :=
  if value = "A" then some .primary
  else if value = "B" then some .secondary
  else none

/-- The body of the loop over the connections of a channel; an exception is logged there. -/
def feedOf (fromChars : ConfigReader.FromChars) (channelId : UInt16)
    (item : String × ConfigReader.Connection) : Option (FeedKey × Connection) := do
  let type ← getType item.2.feedType
  let priority ← getPriority item.2.feed
  let port ← fromChars item.2.port
  return (⟨channelId, type, priority⟩, ⟨item.2.ip, port, item.1⟩)

/-- The orders in which the hash maps are iterated. -/
structure Iteration where
  channel : List (String × ConfigReader.Connection) → List (String × ConfigReader.Connection)
  connections : List (FeedKey × Connection) → List (FeedKey × Connection)
  channel_perm : ∀ items, (channel items).Perm items
  connections_perm : ∀ items, (connections items).Perm items

structure Config where
  connections : Table FeedKey Connection
  connectionTypes : String × UInt16 → Option FeedKey
  names : FeedKey → Option String

namespace Config

/-- The feeds of a file in the order in which they are emplaced. -/
def listed (it : Iteration) (fromChars : ConfigReader.FromChars)
    (calls : List (UInt16 × ConfigReader.Channel)) : List (FeedKey × Connection) :=
  calls.flatMap fun call => (it.channel call.2.connections).filterMap (feedOf fromChars call.1)

/-- `read_connections`, from the calls of the reader. -/
def readConnections (it : Iteration) (fromChars : ConfigReader.FromChars)
    (calls : List (UInt16 × ConfigReader.Channel)) : Table FeedKey Connection :=
  (listed it fromChars calls).foldl (fun t e => t.tryEmplace e.1 e.2) Table.empty

/-- `create_connection_types` -/
def createConnectionTypes (entries : List (FeedKey × Connection)) :
    String × UInt16 → Option FeedKey :=
  assignAll (fun e => (e.2.multicastAddress, e.2.port)) Prod.fst entries

/-- `create_names` -/
def createNames (entries : List (FeedKey × Connection)) : FeedKey → Option String :=
  assignAll Prod.fst (fun e => e.2.name) entries

/-- The three maps, with the entries of the first in the order of iteration. -/
def ofConnections (listing : List (FeedKey × Connection)) (connections : Table FeedKey Connection) :
    Config :=
  { connections := connections
    connectionTypes := createConnectionTypes listing
    names := createNames listing }

/-- The constructor, from the calls of the reader. -/
def create (it : Iteration) (fromChars : ConfigReader.FromChars)
    (calls : List (UInt16 × ConfigReader.Channel)) : Config :=
  let connections := readConnections it fromChars calls
  ofConnections (it.connections connections.entries) connections

def find (config : Config) (channelId : UInt16) (type : FeedType) (priority : Priority) :
    Option Connection :=
  config.connections.find ⟨channelId, type, priority⟩

/-- The other `find`. -/
def findAddress (config : Config) (address : String) (port : UInt16) : Option FeedKey :=
  config.connectionTypes (address, port)

/-- No result is the exception of the source. -/
def getName (config : Config) (channelId : UInt16) (type : FeedType) (priority : Priority) :
    Option String :=
  config.names ⟨channelId, type, priority⟩

/-- Another feed has the address of this one. -/
def Shares (config : Config) (key : FeedKey) (connection : Connection) : Prop :=
  ∃ key' connection', config.connections.find key' = some connection' ∧ key' ≠ key ∧
    connection'.multicastAddress = connection.multicastAddress ∧ connection'.port = connection.port

section Lookups
variable {t : Table FeedKey Connection} {listing : List (FeedKey × Connection)}

theorem findAddress_sound (hl : listing.Perm t.entries) {address : String} {port : UInt16}
    {key : FeedKey} (h : (ofConnections listing t).findAddress address port = some key) :
    ∃ connection, t.find key = some connection ∧ connection.multicastAddress = address ∧
      connection.port = port := by
  obtain ⟨e, he, haddress, hkey⟩ := mem_of_assignAll h
  rw [Prod.mk.injEq] at haddress
  refine ⟨e.2, t.find_eq_some_iff.2 ?_, haddress⟩
  rw [← hkey]
  exact hl.mem_iff.1 he

/-- A feed has one entry, so that its name does not depend on the order. -/
theorem getName_eq (hl : listing.Perm t.entries) (channelId : UInt16) (type : FeedType)
    (priority : Priority) : (ofConnections listing t).getName channelId type priority =
      (t.find ⟨channelId, type, priority⟩).map Connection.name := by
  cases hfind : t.find ⟨channelId, type, priority⟩ with
  | none =>
    rw [Option.map_none, Option.eq_none_iff_forall_not_mem]
    intro name hname
    obtain ⟨e, he, hkey, -⟩ := mem_of_assignAll hname
    rw [← hkey, t.find_eq_some_iff.2 (hl.mem_iff.1 he)] at hfind
    cases hfind
  | some connection =>
    have hmem := t.find_eq_some_iff.1 hfind
    refine (assignAll_perm_iff Prod.fst (fun e => e.2.name) hmem).2 ?_ listing hl
    intro e he hkey
    have he := t.find_eq_some_iff.2 he
    rw [hkey, hfind, Option.some.injEq] at he
    simp only [he]

/-- The way back from the address of a feed does not depend on the order exactly if no other feed
has this address. -/
theorem findAddress_iff (listing : List (FeedKey × Connection)) {key : FeedKey}
    {connection : Connection} (h : t.find key = some connection) :
    (∀ order : List (FeedKey × Connection), order.Perm t.entries →
        (ofConnections order t).findAddress connection.multicastAddress connection.port =
          some key) ↔
      ¬ (ofConnections listing t).Shares key connection := by
  have hmem := t.find_eq_some_iff.1 h
  refine (assignAll_perm_iff (fun e => (e.2.multicastAddress, e.2.port)) Prod.fst hmem).trans ?_
  constructor
  · intro hsame hshares
    obtain ⟨key', connection', hfind, hne, haddress, hport⟩ := hshares
    exact hne (hsame (key', connection') (t.find_eq_some_iff.1 hfind)
      (Prod.mk.injEq _ _ _ _ ▸ ⟨haddress, hport⟩))
  · intro hnot e he haddress
    rw [Prod.mk.injEq] at haddress
    by_contra hne
    exact hnot ⟨e.1, e.2, t.find_eq_some_iff.2 he, hne, haddress⟩

end Lookups

theorem create_getName (it : Iteration) (fromChars : ConfigReader.FromChars)
    (calls : List (UInt16 × ConfigReader.Channel)) (channelId : UInt16) (type : FeedType)
    (priority : Priority) : (create it fromChars calls).getName channelId type priority =
      ((create it fromChars calls).find channelId type priority).map Connection.name :=
  getName_eq (it.connections_perm _) channelId type priority

theorem create_findAddress_sound {it : Iteration} {fromChars : ConfigReader.FromChars}
    {calls : List (UInt16 × ConfigReader.Channel)} {address : String} {port : UInt16}
    {key : FeedKey} (h : (create it fromChars calls).findAddress address port = some key) :
    ∃ connection, (create it fromChars calls).find key.channelId key.connectionType
      key.priority = some connection ∧ connection.multicastAddress = address ∧
      connection.port = port :=
  findAddress_sound (it.connections_perm _) h

/-- The way back from an address that no other feed has. -/
theorem create_findAddress {it : Iteration} {fromChars : ConfigReader.FromChars}
    {calls : List (UInt16 × ConfigReader.Channel)} {key : FeedKey} {connection : Connection}
    (h : (create it fromChars calls).find key.channelId key.connectionType key.priority =
      some connection)
    (hshares : ¬ (create it fromChars calls).Shares key connection) :
    (create it fromChars calls).findAddress connection.multicastAddress connection.port =
      some key :=
  (findAddress_iff _ h).2 hshares _ (it.connections_perm _)

/-- For every configuration and every order in which its maps are iterated: a feed leads to the
first entry of the file for it and to the name of that entry, an address only to feeds that have
it, and back to the feed that gave it in every order exactly if no other feed shares it. -/
theorem lookups_agree (it : Iteration) (fromChars : ConfigReader.FromChars)
    (calls : List (UInt16 × ConfigReader.Channel)) :
    let config := create it fromChars calls
    (∀ channelId type priority, config.find channelId type priority =
        (listed it fromChars calls).lookup ⟨channelId, type, priority⟩ ∧
      config.getName channelId type priority =
        (config.find channelId type priority).map Connection.name) ∧
    (∀ address port key, config.findAddress address port = some key →
      ∃ connection, config.find key.channelId key.connectionType key.priority = some connection ∧
        connection.multicastAddress = address ∧ connection.port = port) ∧
    ∀ key connection, config.connections.find key = some connection →
      ((∀ order : List (FeedKey × Connection), order.Perm config.connections.entries →
          (ofConnections order config.connections).findAddress connection.multicastAddress
            connection.port = some key) ↔ ¬ config.Shares key connection) := by
  intro config
  refine ⟨?_, ?_, ?_⟩
  · intro channelId type priority
    refine ⟨?_, create_getName it fromChars calls channelId type priority⟩
    exact (Table.find_foldl_tryEmplace _ Table.empty _).trans (Option.none_or)
  · intro address port key h
    exact create_findAddress_sound h
  · intro key connection h
    exact findAddress_iff _ h

end Config
end RoqCme.Mdp
