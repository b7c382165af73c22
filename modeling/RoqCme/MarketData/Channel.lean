import RoqCme.Lib.KeyedBuffer
import RoqCme.Mdp.Frame
import RoqCme.Api

/-! One channel: the A and B feeds share the sequence numbers and the reorder
buffer (`market_data/channel`, `Incremental::dispatch`). What a parsed packet does
is a parameter here; the handlers of the templates are modelled in `Incremental`. -/
namespace RoqCme.MarketData
open RoqCme.Lib RoqCme.Mdp

inductive Priority where
  | primary | secondary
  deriving DecidableEq, Repr

structure Sequence where
  firstSequenceNumber : Nat := 0
  lastSequenceNumber : Nat := 0
  deriving DecidableEq, Repr

/-- What happened between two sequence resets. History only: the code keeps none of it. -/
structure Epoch (P : Type*) where
  arrived : List P := []
  parsed : List (Nat × P) := []
  deriving DecidableEq, Repr

structure Channel (β P : Type*) where
  buffer : β
  sequence : Sequence := {}
  epoch : Epoch P := {}
  past : List (Epoch P) := []

variable {β P σ : Type*}

def Channel.updateSequenceNumber (ch : Channel β P) (sequenceNumber : Nat) : Channel β P :=
  { ch with sequence :=
      { firstSequenceNumber :=
          if ch.sequence.firstSequenceNumber = 0 then sequenceNumber
          else ch.sequence.firstSequenceNumber
        lastSequenceNumber := sequenceNumber } }

/-- History: a payload has arrived. -/
def Channel.arrive (ch : Channel β P) (payload : P) : Channel β P :=
  { ch with epoch := { ch.epoch with arrived := ch.epoch.arrived ++ [payload] } }

/-- The surroundings of `Incremental::dispatch`: the reorder buffer, the frame of a
payload, `options.filter_snapshot_from_incremental`, and what the parser and
`on_sequence_reset` do to the state `σ` of the handlers. -/
structure Arbiter (β P σ : Type*) where
  buffer : KeyedBuffer β P
  frame : P → Option Frame
  filterSnapshotFromIncremental : Nat
  parse : Priority → P → σ → σ
  reset : σ → σ

namespace Arbiter

/-- The hold and drop decisions for a packet numbered `sequenceNumber`. -/
def holdDrop (A : Arbiter β P σ) (s : Sequence) (sequenceNumber : Nat) : Bool × Bool :=
  if sequenceNumber < A.filterSnapshotFromIncremental then (false, true)
  else if s.firstSequenceNumber ≠ 0 then
    let next := u32 (s.lastSequenceNumber + 1)
    (decide (sequenceNumber > next), decide (sequenceNumber < next))
  else (false, false)

/-- `channel_.update_sequence_number` followed by `parse`. -/
def parseMessage (A : Arbiter β P σ) (feed : Priority) (sequenceNumber : Nat) (payload : P)
    (st : Channel β P × σ) : Channel β P × σ :=
  let ch := st.1.updateSequenceNumber sequenceNumber
  ({ ch with epoch := { ch.epoch with parsed := ch.epoch.parsed ++ [(sequenceNumber, payload)] } },
    A.parse feed payload st.2)

/-- The callback given to `buffer.next`, which keeps the payload exactly when the
callback returns a byte count. -/
def receive (A : Arbiter β P σ) (feed : Priority) (payload : P) (st : Channel β P × σ) :
    Channel β P × σ :=
  match A.frame payload with
  | none => st
  | some frame =>
    let (hold, drop) := A.holdDrop st.1.sequence frame.sequenceNumber
    if drop then st
    else if hold then
      ({ st.1 with buffer := A.buffer.keep st.1.buffer frame.sequenceNumber payload }, st.2)
    else A.parseMessage feed frame.sequenceNumber payload st

/-- The loop over withheld messages. Every pass frees a slot, so that the number of
held payloads bounds the passes (`drain_settled`). -/
def drain (A : Arbiter β P σ) (feed : Priority) : Nat → Channel β P × σ → Channel β P × σ
  | 0, st => st
  | fuel + 1, st =>
    if st.1.sequence.firstSequenceNumber ≠ 0 then
      let sequenceNumber := u32 (st.1.sequence.lastSequenceNumber + 1)
      match A.buffer.get st.1.buffer sequenceNumber with
      | some (message, buffer) =>
        drain A feed fuel
          (A.parseMessage feed sequenceNumber message ({ st.1 with buffer := buffer }, st.2))
      | none => st
    else st

def onSequenceReset (A : Arbiter β P σ) (st : Channel β P × σ) : Channel β P × σ :=
  ({ st.1 with sequence := {}, epoch := {}, past := st.1.past ++ [st.1.epoch] }, A.reset st.2)

/-- `Incremental::dispatch` -/
def dispatch (A : Arbiter β P σ) (feed : Priority) (payload : P) (st : Channel β P × σ) :
    Channel β P × σ :=
  let st := (st.1.arrive payload, st.2)
  if A.buffer.hasFree st.1.buffer then
    let st := A.receive feed payload st
    A.drain feed ((A.buffer.held st.1.buffer).card + 1) st
  else
    A.onSequenceReset ({ st.1 with buffer := A.buffer.clear st.1.buffer }, st.2)

def run (A : Arbiter β P σ) (events : List (Priority × P)) (st : Channel β P × σ) :
    Channel β P × σ :=
  events.foldl (fun st e => A.dispatch e.1 e.2 st) st

end Arbiter
end RoqCme.MarketData
