import TorrentCore.Session.Membership
import TorrentCore.Session.Requester
import TorrentCore.Session.Uploader

/-!
# The steps of a session

Everything that happens in a session happens in one of these steps. A step that would have to wait
is no step, so a session in which none of its own steps is possible waits. The steps may come in
any order.
-/

namespace TorrentCore

namespace Session

/-- A step that the session does by itself. -/
inductive Action where
  | stop (number : Nat)
  | receive (number : Nat)
  | transmit (number : Nat)
  | closeOut (number : Nat)
  /-- The coins settle ties between equally rare pieces, or which of two things is noticed first. -/
  | request (number : Nat) (coins : List Bool)
  | announce (position : Nat) (late : Bool)
  | consume
  | finishPiece
  | pickUpload
  | readUpload
  | sendUpload (late : Bool)
  | expire
deriving DecidableEq, Repr

def expire? (s : Session) (now : Nanoseconds) : Option Session :=
  if s.cancelled then none
  else (s.expiry.step? now s.reservations).map fun (expiry, reservations) =>
    { s with expiry := expiry, reservations := reservations }

def connectionStep? (s : Session) (number : Nat) (step : Endpoint → Option Endpoint) :
    Option Session :=
  match s.endpoint? number with
  | none => none
  | some e => (step e).map (s.putEndpoint number)

/-- The session after a step, if that step is possible. -/
def act? (now : Nanoseconds) (s : Session) : Action → Option Session
  | .stop number => s.connectionStep? number Endpoint.stop?
  | .receive number => s.connectionStep? number (Endpoint.receive? now)
  | .transmit number => s.connectionStep? number (Endpoint.transmit? now)
  | .closeOut number => s.closeOut? number
  | .request number coins => s.request? now number coins
  | .announce position late => s.sendAnnouncement? now late position
  | .consume => s.consume?
  | .finishPiece => s.finishPiece?
  | .pickUpload => s.pickUpload?
  | .readUpload => s.readUpload?
  | .sendUpload late => s.sendUpload? now late
  | .expire => s.expire? now

end Session

end TorrentCore
