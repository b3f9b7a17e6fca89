import TorrentCore.Bytes

/-!
# Pipes and links

A pipe carries bytes in one direction, in order, and holds a bounded number of them. Closing it
ends the stream for the reader, after what the pipe still holds, and fails every later write. A
link is a pair of pipes, seen from the near end. What a pipe holds is kept in two parts, so that
writing takes no longer when it holds much; `Pipe.held` is the whole of it.
-/

namespace TorrentCore

inductive Arrival where
  | data (bytes : Bytes)
  | ended
  | failed (cause : String)
deriving DecidableEq, Repr

/-- Bytes on their way in one direction. -/
structure Pipe where
  capacity : Nat
  /-- What is read first. -/
  front : Bytes
  /-- What was written after that, last first. -/
  back : Bytes
  /-- How many bytes there are in both parts. -/
  count : Nat
  closed : Bool
  count_eq : count = front.length + back.length
deriving DecidableEq, Repr

namespace Pipe

def make (capacity : Nat) : Pipe := ⟨capacity, [], [], 0, false, rfl⟩

instance : Inhabited Pipe := ⟨make 0⟩

/-- The bytes that were written and not yet read. -/
def held (p : Pipe) : Bytes :=
  match p.back with
  | [] => p.front
  | back => p.front ++ back.reverse

theorem held_eq (p : Pipe) : p.held = p.front ++ p.back.reverse := by
  unfold held
  split
  · next h => simp [h]
  · rfl

theorem length_held (p : Pipe) : p.held.length = p.count := by
  simp [held_eq, p.count_eq]

/-- The cause given when writing to a closed pipe. -/
def brokenCause : String := "broken pipe"

def room (p : Pipe) : Nat := p.capacity - p.count

def append (p : Pipe) (bytes : Bytes) : Pipe :=
  { p with
    back := bytes.reverseAux p.back
    count := p.count + bytes.length
    count_eq := by
      simp only [List.reverseAux_eq, List.length_append, List.length_reverse, p.count_eq]
      omega }

def drop (p : Pipe) (count : Nat) : Pipe :=
  let rest := p.held.drop count
  { p with
    front := rest
    back := []
    count := p.count - count
    count_eq := by simp [rest, length_held] }

@[simp]
theorem held_append (p : Pipe) (bytes : Bytes) : (p.append bytes).held = p.held ++ bytes := by
  simp [held_eq, append, List.reverseAux_eq]

@[simp]
theorem held_drop (p : Pipe) (count : Nat) : (p.drop count).held = p.held.drop count := by
  simp [held_eq, drop]

/-- Writes what fits and gives the bytes that are left. A closed pipe takes nothing. -/
def write? (p : Pipe) (bytes : Bytes) : Option (Bytes × Pipe) :=
  if p.closed then none
  else some (bytes.drop p.room, p.append (bytes.take p.room))

/-- Reads at most `room` bytes. Nothing is read while the pipe is empty and open. -/
def read? (p : Pipe) (room : Nat) : Option (Arrival × Pipe) :=
  if p.count = 0 then if p.closed then some (.ended, p) else none
  else some (.data (p.held.take room), p.drop room)

def close (p : Pipe) : Pipe := { p with closed := true }

end Pipe

/-- Both directions of a connection. -/
structure Link where
  incoming : Pipe
  outgoing : Pipe
deriving DecidableEq, Repr, Inhabited

namespace Link

def make (capacity : Nat) : Link := ⟨Pipe.make capacity, Pipe.make capacity⟩

/-- The near end lets go of the link. -/
def hangUp (l : Link) : Link := ⟨l.incoming.close, l.outgoing.close⟩

end Link

end TorrentCore
