import TorrentCore.Decimal.Nanoseconds

/-!
# How long a reservation lasts

Reservations get shorter while a torrent fills up, so that stuck pieces are offered to others
sooner near the end.
-/

namespace TorrentCore

/-- The longest and shortest reservation, and the completed part from which on the shortest one
is used. -/
structure ReservationPolicy where
  maxTtl : Nanoseconds := 10000000000
  minTtl : Nanoseconds := 1000000000
  endgame : Float := 0.8

namespace ReservationPolicy

/-- Falls in a straight line from the longest to the shortest time, computed in doubles. -/
def ttl (p : ReservationPolicy) (completion : Float) : Nanoseconds :=
  if !(p.endgame > 0.0) || completion ≥ p.endgame then p.minTtl
  else
    let t := (if completion > 0.0 then completion else 0.0) / p.endgame
    let longest := p.maxTtl.toSeconds
    let shortest := p.minTtl.toSeconds
    Nanoseconds.ofFloatSeconds (longest - (longest - shortest) * t)

end ReservationPolicy

end TorrentCore
