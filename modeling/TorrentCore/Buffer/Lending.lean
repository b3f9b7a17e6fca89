import TorrentCore.Buffer.Pool
import TorrentCore.Table

/-!
# Buffers that are out

A pool together with the buffers that were taken from it and not given back, each under a name.
Whoever takes a buffer under a name in use gives the old one back after having got the new one.
-/

namespace TorrentCore

structure Lending where
  pool : BufferPool
  out : Table String Buffer
deriving Inhabited

namespace Lending

def make (bufferCapacity maxIdle : Nat) : Lending := ⟨.make bufferCapacity maxIdle, .empty⟩

def put (l : Lending) (name : String) (b : Buffer) (pool : BufferPool) : Lending :=
  ⟨pool.giveBackAll (l.out.get? name).toList, l.out.insert name b⟩

def borrow (l : Lending) (name : String) : Lending := l.put name l.pool.take.1 l.pool.take.2

def borrowFilled (l : Lending) (name : String) (bytes : Bytes) : Lending :=
  l.put name (l.pool.takeFilled bytes).1 (l.pool.takeFilled bytes).2

def change (l : Lending) (name : String) (f : Buffer → Buffer) : Lending :=
  { l with out := l.out.modify name f }

def giveBack (l : Lending) (name : String) : Lending :=
  ⟨l.pool.giveBackAll (l.out.get? name).toList, l.out.erase name⟩

def giveBackEverything (l : Lending) : Lending := ⟨l.pool.giveBackAll l.out.values, .empty⟩

end Lending

end TorrentCore
