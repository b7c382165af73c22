import RoqCme.Mdp.Messages
import RoqCme.Tools.Security
import Mathlib.Logic.Function.Basic

/-! The instruments known to the gateway and the two ways to fill the table: the secdef
file and the instrument definition messages (`market_data/security_definitions`). -/
namespace RoqCme.MarketData
open RoqCme.Mdp RoqCme.Tools
variable {Qp Qo : Type}

/-- The ids of a group are kept in the order of insertion; the source leaves the order open. -/
structure SecurityDefinitions (Qp Qo : Type) where
  securities : Int → Option (Security Qp Qo) := fun _ => none
  securityGroups : String → List Int := fun _ => []
  marketSegments : Nat → String → Option Int := fun _ _ => none

/-- `secdef::ConfigReader::SecDef` -/
structure SecDef where
  securityId : Nat
  marketSegmentId : Nat
  exchange : String
  symbol : String
  currency : String
  multiplier : Int
  minTradeVol : Nat
  maxTradeVol : Nat
  minPriceIncrement : Double
  displayFactor : Double
  asset : String
  deriving DecidableEq, Repr

/-- A future quoted in its own units. -/
def SecDef.sample (securityId : Nat) (symbol : String) : SecDef :=
  { securityId := securityId, marketSegmentId := 64, exchange := "CME", symbol := symbol
    currency := "USD", multiplier := 0, minTradeVol := 1, maxTradeVol := 1000
    minPriceIncrement := some (1 / 4), displayFactor := some 1, asset := "ES" }

/-- The conversion from any integer to int32. -/
def toInt32 (n : Int) : Int := Int.bmod n (2 ^ 32)

/-- A security with default book state, the sequencers freshly constructed. -/
def newSecurity (mbp : Qp) (mbo : Qo) (exchange symbol : String) (displayFactor : Double)
    (discard : Bool) : Security Qp Qo :=
  { exchange := exchange, symbol := symbol, displayFactor := displayFactor, discard := discard
    mbp := { sequencer := mbp }, mbo := { sequencer := mbo } }

namespace SecurityDefinitions

def hasSecurity (sd : SecurityDefinitions Qp Qo) (securityId : Int) : Bool :=
  (sd.securities securityId).isSome

/-- `try_emplace` into the table of securities. -/
def emplaceSecurity (sd : SecurityDefinitions Qp Qo) (securityId : Int)
    (security : Security Qp Qo) : SecurityDefinitions Qp Qo :=
  match sd.securities securityId with
  | some _ => sd
  | none => { sd with securities := Function.update sd.securities securityId (some security) }

def insertGroup (sd : SecurityDefinitions Qp Qo) (group : String) (securityId : Int) :
    SecurityDefinitions Qp Qo :=
  if securityId ∈ sd.securityGroups group then sd
  else { sd with securityGroups :=
    Function.update sd.securityGroups group (sd.securityGroups group ++ [securityId]) }

/-- `try_emplace` into the symbols of a market segment. -/
def emplaceSymbol (sd : SecurityDefinitions Qp Qo) (marketSegmentId : Nat) (symbol : String)
    (securityId : Int) : SecurityDefinitions Qp Qo :=
  match sd.marketSegments marketSegmentId symbol with
  | some _ => sd
  | none =>
    let symbols := Function.update (sd.marketSegments marketSegmentId) symbol (some securityId)
    { sd with marketSegments := Function.update sd.marketSegments marketSegmentId symbols }

def createSecurity (sd : SecurityDefinitions Qp Qo) (securityGroup : String)
    (marketSegmentId : Nat) (securityId : Int) (security : Security Qp Qo) :
    SecurityDefinitions Qp Qo :=
  let sd :=
    if security.discard then sd
    else (sd.insertGroup securityGroup securityId).emplaceSymbol marketSegmentId security.symbol
      securityId
  sd.emplaceSecurity securityId security

def getSecurityInclDiscard (sd : SecurityDefinitions Qp Qo) (securityId : Int) :
    Option (Security Qp Qo) :=
  sd.securities securityId

def getSecurity (sd : SecurityDefinitions Qp Qo) (securityId : Int) : Option (Security Qp Qo) :=
  (sd.securities securityId).filter fun security => !security.discard

def getSecurityGroup (sd : SecurityDefinitions Qp Qo) (securityGroup : String) : List Int :=
  sd.securityGroups securityGroup

def findSecurityId (sd : SecurityDefinitions Qp Qo) (marketSegmentId : Nat) (symbol : String) :
    Option Int :=
  sd.marketSegments marketSegmentId symbol

/-- Write back through a reference obtained from one of the lookups. -/
def setSecurity (sd : SecurityDefinitions Qp Qo) (securityId : Int) (security : Security Qp Qo) :
    SecurityDefinitions Qp Qo :=
  { sd with securities := Function.update sd.securities securityId (some security) }

/-- The handler of the secdef file: it emplaces into all three maps, whatever they hold. -/
def onSecDef (discardSymbol : String → Bool) (mbp : Qp) (mbo : Qo)
    (sd : SecurityDefinitions Qp Qo) (item : SecDef) : SecurityDefinitions Qp Qo :=
  let discard := discardSymbol item.symbol
  if discard then sd
  else
    let securityId := toInt32 item.securityId
    let security := newSecurity mbp mbo item.exchange item.symbol item.displayFactor discard
    ((sd.emplaceSecurity securityId security).insertGroup item.asset securityId).emplaceSymbol
      item.marketSegmentId item.symbol securityId

def load (discardSymbol : String → Bool) (mbp : Qp) (mbo : Qo) (items : List SecDef) :
    SecurityDefinitions Qp Qo :=
  items.foldl (onSecDef discardSymbol mbp mbo) {}

/-- The helper `create_security` of both feeds, which tests `has_security` first. -/
def define (discardSymbol : String → Bool) (mbp : Qp) (mbo : Qo)
    (sd : SecurityDefinitions Qp Qo) (value : InstrumentDefinition) :
    SecurityDefinitions Qp Qo :=
  if sd.hasSecurity value.securityID then sd
  else
    sd.createSecurity value.securityGroup value.marketSegmentID value.securityID
      (newSecurity mbp mbo value.securityExchange value.symbol (price9 value.displayFactor)
        (discardSymbol value.symbol))

end SecurityDefinitions
end RoqCme.MarketData
