import RoqCme.Lib.Command
import RoqCme.MarketData.SecurityDefinitions
import Mathlib.Data.List.TakeWhile

/-! The secdef file (`secdef/config_reader`). A newline is a delimiter like any other for the loop:
what ends a record is an empty field, and that is only seen between two delimiters. -/
namespace RoqCme.Secdef
open RoqCme.Lib
variable {σ ε : Type}

/-- `ConfigReader::SecDef`, with the two fields that the readers of the records do not use. -/
@[ext] structure SecDef extends MarketData.SecDef where
  securityType : String
  discard : Bool
  deriving DecidableEq, Repr

/-- `SecDef{}` -/
def SecDef.initial : SecDef :=
  { securityId := 0, marketSegmentId := 0, exchange := "", symbol := "", currency := ""
    multiplier := 0, minTradeVol := 0, maxTradeVol := 0, minPriceIncrement := none
    displayFactor := none, asset := "", securityType := "", discard := false }

/-- `utils::charconv::from_chars` belongs to another library. No result is an exception. -/
structure Charconv where
  uint8 : List Char → Option Nat
  uint32 : List Char → Option Nat
  int32 : List Char → Option Int
  double : List Char → Option Double

/-- Decimal digits and nothing else. -/
def digits (text : List Char) : Option Nat :=
  if text ≠ [] ∧ text.all Char.isDigit then
    some (text.foldl (fun n c => 10 * n + (c.toNat - '0'.toNat)) 0)
  else none

/-- The conversion of plain decimal numbers. -/
def Charconv.decimal : Charconv where
  uint8 text := (digits text).filter fun n => n < 2 ^ 8
  uint32 text := (digits text).filter fun n => n < 2 ^ 32
  int32 text :=
    match text with
    | '-' :: rest => ((digits rest).filter fun n => n ≤ 2 ^ 31).map fun n => -(n : Int)
    | _ => ((digits text).filter fun n => n < 2 ^ 31).map fun n => (n : Int)
  double text := (digits text).map fun n => some (n : ℚ)

/-- The ways in which `ConfigReader::dispatch` ends early. -/
inductive Failure (ε : Type) where
  | fromChars
  | outOfRange
  | handler (e : ε)
  | outOfFuel
  deriving DecidableEq, Repr

/-- `std::string_view::substr` from a position on. No result is `std::out_of_range`. -/
def substr (text : List Char) (position : Nat) : Option (List Char) :=
  if position ≤ text.length then some (text.drop position) else none

def isDelimiter (c : Char) : Bool := c = '\x01' ∨ c = '\n'

namespace ConfigReader

/-- The `switch` over the tag: what is done to the record, if the value can be read. -/
def assign (cc : Charconv) (tag : Nat) (value : List Char) : Option (SecDef → SecDef) :=
  match tag with
  | 15 => some fun result => { result with currency := String.ofList value }
  | 48 => (cc.uint32 value).map fun v result => { result with securityId := v }
  | 55 => some fun result => { result with symbol := String.ofList value }
  | 167 => some fun result => { result with securityType := String.ofList value }
  | 207 => some fun result => { result with exchange := String.ofList value }
  | 231 => (cc.int32 value).map fun v result => { result with multiplier := v }
  | 562 => (cc.uint32 value).map fun v result => { result with minTradeVol := v }
  | 969 => (cc.double value).map fun v result => { result with minPriceIncrement := v }
  | 1140 => (cc.uint32 value).map fun v result => { result with maxTradeVol := v }
  | 1300 => (cc.uint8 value).map fun v result => { result with marketSegmentId := v }
  | 6937 => some fun result => { result with asset := String.ofList value }
  | 9787 => (cc.double value).map fun v result => { result with displayFactor := v }
  | _ => some fun result => result

/-- The recognised tags. -/
def tags : List Nat := [15, 48, 55, 167, 207, 231, 562, 969, 1140, 1300, 6937, 9787]

/-- `set` -/
def set (cc : Charconv) (result : SecDef) (key value : List Char) : Option SecDef :=
  (cc.uint32 key).bind fun tag => (assign cc tag value).map fun write => write result

/-- The branch for a field that is not empty. -/
def field (cc : Charconv) (secDef : SecDef) (keyValue : List Char) : Except (Failure ε) SecDef :=
  let key := keyValue.takeWhile fun c => c ≠ '='
  match substr keyValue (key.length + 1) with
  | none => .error .outOfRange
  | some value =>
    match set cc secDef key value with
    | none => .error .fromChars
    | some secDef => .ok secDef

/-- `tmp = tmp.substr(..)` at the end of a round, and the next one. -/
def advance (tmp : List Char) (position : Nat) (next : List Char → Command σ (Failure ε)) :
    Command σ (Failure ε) :=
  match substr tmp position with
  | none => .throw .outOfRange
  | some tmp => next tmp

/-- The loop of `ConfigReader::dispatch`. -/
def loop (cc : Charconv) (handler : SecDef → Command σ ε) :
    Nat → List Char → SecDef → Command σ (Failure ε)
  | 0, _, _ => .throw .outOfFuel
  | fuel + 1, tmp, secDef =>
    if tmp = [] then .skip
    else
      let keyValue := tmp.takeWhile fun c => !isDelimiter c
      let next := fun secDef =>
        advance tmp (keyValue.length + 1) fun tmp => loop cc handler fuel tmp secDef
      if keyValue = [] then ((handler secDef).mapError .handler).andThen (next SecDef.initial)
      else
        match field cc secDef keyValue with
        | .error e => .throw e
        | .ok secDef => next secDef

/-- `ConfigReader::dispatch` -/
def dispatch (cc : Charconv) (handler : SecDef → Command σ ε) (buffer : List Char) :
    Command σ (Failure ε) :=
  loop cc handler (buffer.length + 1) buffer SecDef.initial

end ConfigReader

namespace ConfigReader
section Read
variable (cc : Charconv) (handler : SecDef → Command σ ε)

theorem length_substr {tmp rest : List Char} {n : Nat} (h : substr tmp (n + 1) = some rest) :
    rest.length < tmp.length := by
  rw [substr] at h
  split at h
  · next hle =>
    cases h
    rw [List.length_drop]
    omega
  · cases h

/-- Every round takes at least one character: the fuel does not matter. -/
theorem loop_congr (fuel fuel' : Nat) (tmp : List Char) (secDef : SecDef) (h : tmp.length < fuel)
    (h' : tmp.length < fuel') : loop cc handler fuel tmp secDef = loop cc handler fuel' tmp secDef := by
  induction fuel generalizing fuel' tmp secDef with
  | zero => omega
  | succ fuel ih =>
    cases fuel' with
    | zero => omega
    | succ fuel' =>
      have hnext : ∀ n secDef,
          advance tmp (n + 1) (fun tmp => loop cc handler fuel tmp secDef) =
            advance tmp (n + 1) (fun tmp => loop cc handler fuel' tmp secDef) := by
        intro n secDef
        cases hs : substr tmp (n + 1) with
        | none => simp only [advance, hs]
        | some rest =>
          have hlt := length_substr hs
          simp only [advance, hs]
          exact ih fuel' rest secDef (by omega) (by omega)
      simp only [loop, hnext]

/-- The loop with as much fuel as it needs. -/
def readFrom (tmp : List Char) (secDef : SecDef) : Command σ (Failure ε) :=
  loop cc handler (tmp.length + 1) tmp secDef

theorem readFrom_nil (secDef : SecDef) : readFrom cc handler [] secDef = .skip := rfl

/-- A delimiter where a field could start. -/
theorem readFrom_delimiter {c : Char} (hc : isDelimiter c = true) (rest : List Char) (secDef : SecDef) :
    readFrom cc handler (c :: rest) secDef =
      ((handler secDef).mapError .handler).andThen (readFrom cc handler rest SecDef.initial) := by
  have htake : (c :: rest).takeWhile (fun c => !isDelimiter c) = [] :=
    List.takeWhile_cons_of_neg (by simp [hc])
  rw [readFrom, List.length_cons, loop]
  simp [htake, advance, substr, readFrom]

end Read

/-- The same record but for the place of the tag. -/
structure SameOutside (tag : Nat) (x y : SecDef) : Prop where
  currency : tag ≠ 15 → x.currency = y.currency
  securityId : tag ≠ 48 → x.securityId = y.securityId
  symbol : tag ≠ 55 → x.symbol = y.symbol
  securityType : tag ≠ 167 → x.securityType = y.securityType
  exchange : tag ≠ 207 → x.exchange = y.exchange
  multiplier : tag ≠ 231 → x.multiplier = y.multiplier
  minTradeVol : tag ≠ 562 → x.minTradeVol = y.minTradeVol
  minPriceIncrement : tag ≠ 969 → x.minPriceIncrement = y.minPriceIncrement
  maxTradeVol : tag ≠ 1140 → x.maxTradeVol = y.maxTradeVol
  marketSegmentId : tag ≠ 1300 → x.marketSegmentId = y.marketSegmentId
  asset : tag ≠ 6937 → x.asset = y.asset
  displayFactor : tag ≠ 9787 → x.displayFactor = y.displayFactor
  discard : x.discard = y.discard

section Assign
variable {cc : Charconv} {tag tag' : Nat} {value : List Char} {write : SecDef → SecDef}

theorem assign_sameOutside (h : assign cc tag value = some write) (x : SecDef) :
    SameOutside tag (write x) x := by
  unfold assign at h
  split at h
  all_goals
    simp only [Option.map_eq_some_iff, Option.some.injEq] at h
    constructor <;> grind

/-- Writing any place keeps two records the same outside of that one. -/
theorem SameOutside.assign {x y : SecDef} (hs : SameOutside tag x y)
    (h : assign cc tag' value = some write) : SameOutside tag (write x) (write y) := by
  unfold ConfigReader.assign at h
  split at h
  all_goals
    simp only [Option.map_eq_some_iff, Option.some.injEq] at h
    obtain ⟨_, _, _, _, _, _, _, _, _, _, _, _, _⟩ := hs
    constructor <;> grind

/-- Writing the place itself makes them the same. -/
theorem SameOutside.assign_eq {x y : SecDef} (hs : SameOutside tag x y)
    (h : ConfigReader.assign cc tag value = some write) (hrec : tag ∈ tags) : write x = write y := by
  unfold ConfigReader.assign at h
  split at h
  all_goals
    simp only [Option.map_eq_some_iff, Option.some.injEq] at h
    obtain ⟨_, _, _, _, _, _, _, _, _, _, _, _, _⟩ := hs
    ext1 <;> grind [tags]

end Assign

end ConfigReader
end RoqCme.Secdef
