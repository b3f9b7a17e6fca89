import TorrentCore.Connection.Endpoint

/-!
# Buffers come empty

Who takes a buffer out of a pool counts on finding nothing in it, although others have used it
before. A pool is `Clean` if this is so. It is clean when it is made and stays so, because a buffer
is emptied when it is given back, and therefore a packet holds the bytes it was made for and no
others.
-/

namespace TorrentCore

namespace Buffer

@[simp] theorem bytes_append (b : Buffer) (bytes : Bytes) :
    (b.append bytes).bytes = b.bytes ++ bytes := rfl

theorem bytes_resize {b : Buffer} {length : Nat} (h : b.bytes.length ≤ length) :
    (b.resize length).bytes = b.bytes ++ List.replicate (length - b.bytes.length) 0 := by
  show b.bytes.take length ++ _ = _
  rw [List.take_of_length_le h]

end Buffer

namespace BufferPool

def Clean (p : BufferPool) : Prop := ∀ b ∈ p.idle, b.bytes = []

theorem clean_make (bufferCapacity maxIdle : Nat) : (make bufferCapacity maxIdle).Clean :=
  fun _ h => absurd h List.not_mem_nil

variable {p : BufferPool}

theorem Clean.take (h : p.Clean) : p.take.1.bytes = [] ∧ p.take.2.Clean := by
  unfold BufferPool.take
  split
  · next b idle hidle =>
    refine ⟨h b ?_, fun b' hb' => h b' ?_⟩
    · rw [hidle]
      exact List.mem_cons_self
    · rw [hidle]
      exact List.mem_cons_of_mem b hb'
  · exact ⟨rfl, h⟩

theorem Clean.takeFilled (h : p.Clean) (bytes : Bytes) :
    (p.takeFilled bytes).1.bytes = bytes ∧ (p.takeFilled bytes).2.Clean := by
  obtain ⟨hempty, hclean⟩ := h.take
  refine ⟨?_, hclean⟩
  rw [BufferPool.takeFilled, Buffer.bytes_append, hempty, List.nil_append]

theorem Clean.giveBack (h : p.Clean) (b : Buffer) : (p.giveBack b).Clean := by
  unfold BufferPool.giveBack
  simp only
  split
  · intro b' hb'
    rcases List.mem_cons.mp hb' with rfl | hold
    · rfl
    · exact h b' hold
  · exact h

theorem Clean.giveBackAll (h : p.Clean) (buffers : List Buffer) :
    (p.giveBackAll buffers).Clean := by
  unfold BufferPool.giveBackAll
  induction buffers generalizing p with
  | nil => exact h
  | cons b buffers ih => exact ih (h.giveBack b)

/-! ### How many are out -/

@[simp] theorem outstanding_take (p : BufferPool) : p.take.2.outstanding = p.outstanding + 1 := by
  unfold BufferPool.take
  split <;> rfl

@[simp] theorem outstanding_takeFilled (p : BufferPool) (bytes : Bytes) :
    (p.takeFilled bytes).2.outstanding = p.outstanding + 1 := p.outstanding_take

@[simp] theorem outstanding_giveBack (p : BufferPool) (b : Buffer) :
    (p.giveBack b).outstanding = p.outstanding - 1 := by
  unfold BufferPool.giveBack
  simp only
  split <;> rfl

@[simp] theorem outstanding_giveBackAll (p : BufferPool) (buffers : List Buffer) :
    (p.giveBackAll buffers).outstanding = p.outstanding - buffers.length := by
  unfold BufferPool.giveBackAll
  induction buffers generalizing p with
  | nil => rfl
  | cons b buffers ih =>
      rw [List.foldl_cons, ih, outstanding_giveBack, List.length_cons]
      omega

end BufferPool

namespace Hub

theorem bytes_pack {h : Hub} (hclean : h.packetPool.Clean) (m : Message) :
    (h.pack m).1.packet.bytes = m.encode ∧ (h.pack m).2.packetPool.Clean :=
  hclean.takeFilled m.encode

end Hub

end TorrentCore
