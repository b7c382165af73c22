import RoqCme.Lib.Bytes

/-! The packet header shared by all market-data feeds (`protocol/mdp/frame`). -/
namespace RoqCme.Mdp
open RoqCme.Lib

structure Frame where
  sequenceNumber : Nat
  sendingTime : Nat
  deriving DecidableEq, Repr

def Frame.size : Nat := 12

/-- `Frame::parse_helper`: a packet shorter than the header has no frame. -/
def Frame.parse (buffer : List UInt8) : Option Frame :=
  if buffer.length < Frame.size then none
  else some
    { sequenceNumber := ofLittleEndian (buffer.take 4)
      sendingTime := ofLittleEndian ((buffer.drop 4).take 8) }

end RoqCme.Mdp
