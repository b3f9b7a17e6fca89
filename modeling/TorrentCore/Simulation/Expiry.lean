import TorrentCore.Reservation

/-!
# Reservations on a virtual clock

The clock moves only when asked to, straight from one deadline to the next. The loop that ends
reservations may be stopped and started again; while it runs, it always runs until it has to wait.
-/

namespace TorrentCore

/-- Reservations, the time, and the loop if it is running. -/
structure TimedReservations where
  now : Nanoseconds
  reservations : Reservations
  loop : Option ExpiryLoop

namespace TimedReservations

def make (pieceCount : Nat) : TimedReservations := ⟨0, Reservations.empty pieceCount, none⟩

def runLoop (now : Nanoseconds) : Nat → ExpiryLoop → Reservations → ExpiryLoop × Reservations
  | 0, loop, r => (loop, r)
  | fuel + 1, loop, r => match loop.step? now r with
    | some (loop, r) => runLoop now fuel loop r
    | none => (loop, r)

/-- Runs the loop until it waits. It looks at most twice at one time: once for what is due and
once for a reservation that was just made. -/
def settle (t : TimedReservations) : TimedReservations :=
  match t.loop with
  | some loop =>
    let (loop, r) := runLoop t.now 8 loop t.reservations
    { t with loop := some loop, reservations := r }
  | none => t

def timer? (t : TimedReservations) : Option Nanoseconds :=
  (t.loop.bind ExpiryLoop.timer?).map Nanoseconds.ceilMilliseconds

def advanceTo (target : Nanoseconds) : Nat → TimedReservations → TimedReservations
  | 0, t => settle { t with now := target }
  | fuel + 1, t => match t.timer? with
    | some time =>
      if time < target then advanceTo target fuel (settle { t with now := max t.now time })
      else settle { t with now := target }
    | none => settle { t with now := target }

/-- Moves the clock by some time. Each timer takes an entry off the queue, so there are no more of
them than entries. -/
def advance (t : TimedReservations) (span : Nanoseconds) : TimedReservations :=
  t.advanceTo (t.now + span) (t.reservations.queue.length + 1)

end TimedReservations

end TorrentCore
