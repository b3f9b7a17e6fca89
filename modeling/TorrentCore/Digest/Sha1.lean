import TorrentCore.Bytes

/-!
# SHA-1

The digest of FIPS 180-4. A message is absorbed in blocks of sixty-four bytes; what does not fill
a block waits. Because waiting bytes are put in front of the next part, feeding a message in parts
gives the digest of the parts joined together (`Hasher.update_append`).
-/

namespace TorrentCore.Sha1

structure Chain where
  a : UInt32
  b : UInt32
  c : UInt32
  d : UInt32
  e : UInt32
deriving DecidableEq, Repr

def Chain.initial : Chain :=
  ⟨0x67452301, 0xEFCDAB89, 0x98BADCFE, 0x10325476, 0xC3D2E1F0⟩

def rotateLeft (w : UInt32) (n : UInt32) : UInt32 := (w <<< n) ||| (w >>> (32 - n))

def blockWords : Nat → Bytes → List UInt32
  | 0, _ => []
  | n + 1, bytes => Bytes.toWord bytes :: blockWords n (bytes.drop 4)

def roundTerm (t : Nat) (b c d : UInt32) : UInt32 :=
  if t < 20 then ((b &&& c) ||| (~~~b &&& d)) + 0x5A827999
  else if t < 40 then (b ^^^ c ^^^ d) + 0x6ED9EBA1
  else if t < 60 then ((b &&& c) ||| (b &&& d) ||| (c &&& d)) + 0x8F1BBCDC
  else (b ^^^ c ^^^ d) + 0xCA62C1D6

/-- Runs the last `left` of the eighty rounds. `window` holds the sixteen schedule words that
come next; each word used makes room for one computed from the window. -/
def rounds (left : Nat) (window : List UInt32) (s : Chain) : Chain :=
  match left with
  | 0 => s
  | left + 1 =>
    let word := window.headD 0
    let next := rotateLeft
      (window.getD 13 0 ^^^ window.getD 8 0 ^^^ window.getD 2 0 ^^^ word) 1
    let a := rotateLeft s.a 5 + roundTerm (79 - left) s.b s.c s.d + s.e + word
    rounds left (window.drop 1 ++ [next]) ⟨a, s.a, rotateLeft s.b 30, s.c, s.d⟩

def compress (s : Chain) (block : Bytes) : Chain :=
  let r := rounds 80 (blockWords 16 block) s
  ⟨s.a + r.a, s.b + r.b, s.c + r.c, s.d + r.d, s.e + r.e⟩

/-- Mixes in every full block at the front and returns the bytes left over. -/
def absorb (s : Chain) (bytes : Bytes) : Chain × Bytes :=
  if (bytes.take 64).length = 64 then
    absorb (compress s (bytes.take 64)) (bytes.drop 64)
  else (s, bytes)
termination_by bytes.length
decreasing_by
  rename_i h
  rw [List.length_take] at h
  rw [List.length_drop]
  omega

structure Hasher where
  chain : Chain
  /-- Bytes that do not fill a block yet. -/
  waiting : Bytes
  length : Nat
deriving DecidableEq, Repr

namespace Hasher

def new : Hasher := ⟨Chain.initial, [], 0⟩

def update (h : Hasher) (part : Bytes) : Hasher :=
  let (chain, waiting) := absorb h.chain (h.waiting ++ part)
  ⟨chain, waiting, h.length + part.length⟩

/-- The bytes that end a message of `length` bytes: a mark, zeros, and the length in bits. -/
def padding (length : Nat) : Bytes :=
  0x80 :: (List.replicate ((119 - length % 64) % 64) 0
    ++ Bytes.ofWord (UInt32.ofNat (length * 8 / 4294967296))
    ++ Bytes.ofWord (UInt32.ofNat (length * 8)))

def finish (h : Hasher) : Bytes :=
  let s := (absorb h.chain (h.waiting ++ padding h.length)).1
  Bytes.ofWord s.a ++ Bytes.ofWord s.b ++ Bytes.ofWord s.c ++ Bytes.ofWord s.d ++ Bytes.ofWord s.e

end Hasher

theorem absorb_append (s : Chain) (a b : Bytes) :
    absorb s (a ++ b) = absorb (absorb s a).1 ((absorb s a).2 ++ b) := by
  fun_induction absorb s a with
  | case1 s a h ih =>
    have hlen : 64 ≤ a.length := by rw [List.length_take] at h; omega
    have htake : (a ++ b).take 64 = a.take 64 := List.take_append_of_le_length hlen
    have hdrop : (a ++ b).drop 64 = a.drop 64 ++ b := List.drop_append_of_le_length hlen
    rw [absorb, if_pos (by rw [htake]; exact h), htake, hdrop, ih]
  | case2 s a h => rfl

theorem Hasher.update_append (h : Hasher) (a b : Bytes) :
    (h.update a).update b = h.update (a ++ b) := by
  simp only [Hasher.update, ← List.append_assoc, absorb_append h.chain (h.waiting ++ a) b,
    List.length_append, Nat.add_assoc]

def ofParts (parts : List Bytes) : Bytes := (parts.foldl Hasher.update Hasher.new).finish

def digest (bytes : Bytes) : Bytes := (Hasher.new.update bytes).finish

theorem foldl_update (h : Hasher) (part : Bytes) (parts : List Bytes) :
    parts.foldl Hasher.update (h.update part) = h.update (part ++ parts.flatten) := by
  induction parts generalizing part with
  | nil => simp
  | cons p ps ih => simp [Hasher.update_append, ih, List.append_assoc]

/-- How a message is cut into parts does not show in its digest. -/
theorem ofParts_eq_digest (part : Bytes) (parts : List Bytes) :
    ofParts (part :: parts) = digest (part ++ parts.flatten) := by
  simp only [ofParts, digest, List.foldl_cons, foldl_update]

end TorrentCore.Sha1
