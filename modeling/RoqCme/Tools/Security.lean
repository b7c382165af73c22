import RoqCme.Api

/-! One instrument and its book state (`tools/security`). The MBP and MBO sequencers come
from another library: they are parameters, machines that answer every submission with the
callbacks they make and possibly with `BadState`. -/
namespace RoqCme.Tools

/-- A callback of a snapshot submission. `lastSequence` is what `last_sequence()` answers
while the callback runs. -/
inductive SnapshotCall (U : Type) where
  | publishSnapshot (content : U) (exchangeSequence lastSequence : Nat)
  | requestSnapshot (retries : Nat)
  deriving DecidableEq, Repr

inductive UpdateCall (U : Type) where
  | publishUpdate (content : U)
  | snapshot (call : SnapshotCall U)
  deriving DecidableEq, Repr

/-- The callbacks made, in order, the state after them, and whether `BadState` was thrown. -/
structure Outcome (Q C : Type) where
  calls : List C
  state : Q
  badState : Bool

/-- `market::mbp::Sequencer` and `market::mbo::Sequencer`, for book content `U`. The last
argument of `snapshot` says whether the callback hands the published book to `apply`. -/
structure Sequencer (Q U : Type) where
  init : Q
  lastSequence : Q → Nat
  clear : Q → Q
  snapshot : Q → U → Nat → Bool → Bool → Outcome Q (SnapshotCall U)
  update : Q → U → Nat → Nat → Nat → Outcome Q (UpdateCall U)

/-- A sequencer without a queue: it publishes as long as nothing is missing. -/
def Sequencer.direct (U : Type) : Sequencer (Option Nat) U where
  init := none
  lastSequence q := q.getD 0
  clear _ := none
  snapshot q content exchangeSequence force _ :=
    if force then ⟨[.publishSnapshot content exchangeSequence exchangeSequence],
      some exchangeSequence, false⟩
    else ⟨[.requestSnapshot 0], q, false⟩
  update q content exchangeSequence _ _ :=
    match q with
    | some _ => ⟨[.publishUpdate content], some exchangeSequence, false⟩
    | none => ⟨[.snapshot (.requestSnapshot 0)], none, false⟩

structure Mbp (Qp : Type) where
  sequencer : Qp
  resubscribe : Nat := 0
  deriving DecidableEq

structure Mbo (Qo : Type) where
  noChunks : Nat := 0
  lastChunk : Nat := 0
  orders : List MBOUpdate := []
  sequencer : Qo
  resubscribe : Nat := 0
  deriving DecidableEq

structure Security (Qp Qo : Type) where
  exchange : String
  symbol : String
  displayFactor : Double
  discard : Bool
  rptSeq : Nat := 0
  mbp : Mbp Qp
  mbo : Mbo Qo
  deriving DecidableEq

namespace Security
variable {Qp Qo ε : Type}

/-- `true` asks for a resubscription; the conflated feed sends zero. -/
def updateRptSeq (s : Security Qp Qo) (rptSeq : Nat) : Bool × Security Qp Qo :=
  if rptSeq = 0 then (false, s)
  else (decide (rptSeq ≠ u32 (s.rptSeq + 1)), { s with rptSeq := rptSeq })

/-- The `reset` of `update_mbo_snapshot`. -/
def resetChunks (s : Security Qp Qo) : Security Qp Qo :=
  { s with mbo := { s.mbo with noChunks := 0, lastChunk := 0, orders := [] } }

/-- The callback works on the orders collected so far and may use the sequencer. -/
def updateMboSnapshot (s : Security Qp Qo) (currentChunk noChunks : Nat)
    (callback : Bool → Security Qp Qo → Security Qp Qo × List ε) :
    Bool × Security Qp Qo × List ε :=
  if s.mbo.noChunks ≠ 0 then
    if currentChunk = s.mbo.lastChunk then (false, s, [])
    else if currentChunk = u32 (s.mbo.lastChunk + 1) then
      if currentChunk = noChunks then
        let r := callback true s
        (true, r.1.resetChunks, r.2)
      else
        let r := callback false { s with mbo := { s.mbo with lastChunk := currentChunk } }
        (false, r.1, r.2)
    else (false, s.resetChunks, [])
  else if currentChunk = 1 then
    let last := decide (currentChunk = noChunks)
    let r := callback last
      { s with mbo := { s.mbo with noChunks := noChunks, lastChunk := currentChunk } }
    (false, r.1, r.2)
  else (false, s, [])

end Security
end RoqCme.Tools
