import RoqCme.Import.Events

/-! The filter tool (`filter/controller`) prints the expression with which tcpdump captures the
feeds of some channels. What tcpdump drops makes no difference to the import. -/
namespace RoqCme.Filter
open RoqCme.Lib RoqCme.Mdp RoqCme.MarketData RoqCme.Import
variable {β Qp Qo : Type}

/-- `settings_` -/
structure Settings where
  type : String
  channelIds : List UInt16
  deriving DecidableEq, Repr

/-- The feeds of a channel, in the order in which they are looked up. -/
def feeds (channelId : UInt16) : List FeedKey :=
  [⟨channelId, .instrumentDefinition, .primary⟩, ⟨channelId, .instrumentDefinition, .secondary⟩,
    ⟨channelId, .incremental, .primary⟩, ⟨channelId, .incremental, .secondary⟩,
    ⟨channelId, .mbpMarketRecovery, .primary⟩, ⟨channelId, .mbpMarketRecovery, .secondary⟩,
    ⟨channelId, .mbofdMarketRecovery, .primary⟩, ⟨channelId, .mbofdMarketRecovery, .secondary⟩]

/-- No result is the fatal error. -/
def find (config : Config) (key : FeedKey) : Option (String × UInt16) :=
  (config.find key.channelId key.connectionType key.priority).map fun connection =>
    (connection.multicastAddress, connection.port)

/-- What is printed for an address. -/
def term (address : String × UInt16) : String :=
  "(host " ++ address.1 ++ " and port " ++ toString address.2.toNat ++ ")"

/-- The loop that prints. -/
def print : List (String × UInt16) → String
  | [] => ""
  | [address] => term address
  | address :: filter => term address ++ " or " ++ print filter

/-- The constructor and the lookups of `dispatch`. -/
def addresses (settings : Settings) (config : Config) : Option (List (String × UInt16)) :=
  if settings.type ≠ "tcpdump" then none
  else (settings.channelIds.flatMap feeds).mapM (find config)

def dispatch (settings : Settings) (config : Config) : Option String :=
  (addresses settings config).map print

section Addresses
variable {filterSettings : Settings} {config : Config} {filter : List (String × UInt16)}

end Addresses

section Filtered
variable {settings : Import.Settings β Qp Qo} {it it' : Iteration}
  {fromChars : ConfigReader.FromChars} {calls : List (UInt16 × ConfigReader.Channel)}
  {filterSettings : Settings} {filter : List (String × UInt16)} {channelIds : List UInt16}

end Filtered

end RoqCme.Filter
