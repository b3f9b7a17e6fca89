import TorrentCore.Bytes

/-!
# Pooled buffers

Buffers are taken from a pool and given back to it. A pool keeps a bounded number of idle buffers,
hands out the one that came back last, and makes a new one when none is idle. A buffer that has
grown far past the size of its pool is not kept.
-/

namespace TorrentCore

/-- A growable byte string with the room reserved for it. -/
structure Buffer where
  capacity : Nat
  bytes : Bytes
deriving DecidableEq, Repr, Inhabited

namespace Buffer

/-- Reserves room for `needed` bytes in all. Room at least doubles when there is not enough. -/
def reserve (b : Buffer) (needed : Nat) : Buffer :=
  if needed ≤ b.capacity then b else { b with capacity := max (2 * b.capacity) (max needed 8) }

def append (b : Buffer) (bytes : Bytes) : Buffer :=
  { b.reserve (b.bytes.length + bytes.length) with bytes := b.bytes ++ bytes }

/-- Empties a buffer and keeps its room. -/
def clear (b : Buffer) : Buffer := { b with bytes := [] }

def resize (b : Buffer) (length : Nat) : Buffer :=
  { b.reserve length with
    bytes := b.bytes.take length ++ List.replicate (length - b.bytes.length) 0 }

def set (b : Buffer) (position : Nat) (value : UInt8) : Buffer :=
  { b with bytes := b.bytes.set position value }

end Buffer

/-- A bounded stock of idle buffers. -/
structure BufferPool where
  bufferCapacity : Nat
  maxIdle : Nat
  /-- Idle buffers, the one that came back last in front. -/
  idle : List Buffer
  /-- How many buffers are with their takers. -/
  outstanding : Nat
  allocations : Nat
deriving DecidableEq, Repr, Inhabited

namespace BufferPool

def make (bufferCapacity maxIdle : Nat) : BufferPool := ⟨bufferCapacity, maxIdle, [], 0, 0⟩

def available (p : BufferPool) : Nat := p.idle.length

def take (p : BufferPool) : Buffer × BufferPool :=
  match p.idle with
  | b :: idle => (b, { p with idle := idle, outstanding := p.outstanding + 1 })
  | [] => (⟨p.bufferCapacity, []⟩,
    { p with outstanding := p.outstanding + 1, allocations := p.allocations + 1 })

def takeFilled (p : BufferPool) (bytes : Bytes) : Buffer × BufferPool :=
  (p.take.1.append bytes, p.take.2)

/-- Whether a buffer of this room is worth keeping. -/
def keeps (p : BufferPool) (b : Buffer) : Bool :=
  p.bufferCapacity ≤ b.capacity && b.capacity ≤ 2 * p.bufferCapacity

/-- Gives a buffer back: it becomes idle if it is worth keeping and there is room for it. -/
def giveBack (p : BufferPool) (b : Buffer) : BufferPool :=
  let p := { p with outstanding := p.outstanding - 1 }
  if p.keeps b && p.idle.length < p.maxIdle then { p with idle := b.clear :: p.idle } else p

def giveBackAll (p : BufferPool) (buffers : List Buffer) : BufferPool :=
  buffers.foldl giveBack p

def describe (p : BufferPool) : String :=
  "BufferPool \x7b buf_capacity: " ++ toString p.bufferCapacity ++ ", available: "
    ++ toString p.available ++ ", outstanding: " ++ toString p.outstanding ++ " \x7d"

end BufferPool

end TorrentCore
