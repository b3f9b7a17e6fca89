import TorrentCore.Bitfield
import TorrentCore.Decimal.Nanoseconds
import TorrentCore.Table

/-!
# Piece reservations

A reservation is an exclusive claim on a piece for some time, so that two peers are not asked for
the same piece at once. Deadlines are kept twice: in a table by piece, and in a queue by time. An
entry of the queue counts only while the table holds the same deadline, so an entry left over from
an earlier reservation ends no later one.
-/

namespace TorrentCore

/-- The reserved pieces and when their reservations end. -/
structure Reservations where
  reserved : Bitfield
  /-- Deadlines and pieces, the earliest first and entries left over among them. -/
  queue : List (Nanoseconds × Nat)
  deadlines : Table Nat Nanoseconds
  /-- A reservation was made since the expiry loop last looked. -/
  changed : Bool
deriving DecidableEq, Inhabited

namespace Reservations

def empty (pieceCount : Nat) : Reservations := ⟨Bitfield.empty pieceCount, [], Table.empty, false⟩

/-- The order of the queue: by deadline, then by piece. -/
def before (a b : Nanoseconds × Nat) : Bool := a.1 < b.1 || (a.1 == b.1 && a.2 ≤ b.2)

def enqueue (entry : Nanoseconds × Nat) : List (Nanoseconds × Nat) → List (Nanoseconds × Nat)
  | [] => [entry]
  | e :: rest => if before entry e then entry :: e :: rest else e :: enqueue entry rest

/-- Reserves a piece until `ttl` from now. Nothing happens if it is reserved or does not exist. -/
def reserve? (r : Reservations) (now : Nanoseconds) (index : Nat) (ttl : Nanoseconds) :
    Option Reservations :=
  match r.reserved.mark index with
  | .ok (true, reserved) => some {
      reserved := reserved
      queue := enqueue (now + ttl, index) r.queue
      deadlines := r.deadlines.insert index (now + ttl)
      changed := true }
  | _ => none

/-- Ends a reservation early. The entry in the queue stays behind. -/
def release (r : Reservations) (index : Nat) : Bool × Reservations :=
  let deadlines := r.deadlines.erase index
  match r.reserved.unmark index with
  | .ok (was, reserved) => (was, { r with reserved := reserved, deadlines := deadlines })
  | .error _ => (false, { r with deadlines := deadlines })

def isReserved (r : Reservations) (index : Nat) : Bool := r.reserved.contains index

def size (r : Reservations) : Nat := r.deadlines.size

def isEmpty (r : Reservations) : Bool := r.size == 0

/-- Whether an entry of the queue belongs to a reservation that stands. -/
def isLive (deadlines : Table Nat Nanoseconds) (entry : Nanoseconds × Nat) : Bool :=
  deadlines.get? entry.2 == some entry.1

def discardStale (r : Reservations) : Reservations :=
  { r with queue := r.queue.dropWhile fun e => !isLive r.deadlines e }

/-- When the first reservation ends. -/
def nextDeadline (r : Reservations) : Option Nanoseconds × Reservations :=
  let r := r.discardStale
  (r.queue.head?.map Prod.fst, r)

def expireQueue (now : Nanoseconds) : List (Nanoseconds × Nat) → Bitfield →
    Table Nat Nanoseconds → List Nat × List (Nanoseconds × Nat) × Bitfield × Table Nat Nanoseconds
  | [], reserved, deadlines => ([], [], reserved, deadlines)
  | (deadline, index) :: rest, reserved, deadlines =>
    if now < deadline then ([], (deadline, index) :: rest, reserved, deadlines)
    else if isLive deadlines (deadline, index) then
      let deadlines := deadlines.erase index
      match reserved.unmark index with
      | .ok (true, reserved) =>
        let (expired, out) := expireQueue now rest reserved deadlines
        (index :: expired, out)
      | .ok (false, reserved) => expireQueue now rest reserved deadlines
      | .error _ => expireQueue now rest reserved deadlines
    else expireQueue now rest reserved deadlines

/-- Ends every reservation that is due, and lists their pieces in the order they were due. -/
def expire (r : Reservations) (now : Nanoseconds) : List Nat × Reservations :=
  let (expired, queue, reserved, deadlines) := expireQueue now r.queue r.reserved r.deadlines
  (expired, { r with reserved := reserved, queue := queue, deadlines := deadlines })

def describe (r : Reservations) : String :=
  "PieceReservations \x7b reserved: " ++ r.reserved.describe ++ " \x7d"

end Reservations

/-- Where the loop that ends reservations stands. -/
inductive ExpiryLoop where
  /-- About to end the reservations that are due. -/
  | awake
  /-- About to see when the first of the other ones ends. -/
  | planning
  /-- Waiting for a new reservation, and for the given time if there is one. -/
  | asleep (wake : Option Nanoseconds)
deriving DecidableEq, Repr, Inhabited

namespace ExpiryLoop

/-- Whether a sleeping loop has a reason to look again. -/
def isDue (now : Nanoseconds) (wake : Option Nanoseconds) : Bool :=
  match wake with
  | some deadline => Nanoseconds.ceilMilliseconds deadline ≤ now
  | none => false

/-- The next step of the loop, if it does not have to wait. -/
def step? (now : Nanoseconds) : ExpiryLoop → Reservations → Option (ExpiryLoop × Reservations)
  | .awake, r => some (.planning, (r.expire now).2)
  | .planning, r => some (.asleep r.nextDeadline.1, r.nextDeadline.2)
  | .asleep wake, r =>
    if r.changed then some (.awake, { r with changed := false })
    else if isDue now wake then some (.awake, r)
    else none

def timer? : ExpiryLoop → Option Nanoseconds
  | .asleep wake => wake
  | .awake | .planning => none

end ExpiryLoop

end TorrentCore
