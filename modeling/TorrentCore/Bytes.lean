/-!
# Byte strings

The wire, the storage and the digests all deal in finite byte strings. Words are written with
their most significant byte first, and bytes are shown as two lower-case hexadecimal digits.
-/

namespace TorrentCore

abbrev Bytes := List UInt8

namespace Bytes

/-- The four bytes of a word, most significant first. -/
def ofWord (w : UInt32) : Bytes :=
  [UInt8.ofNat (w.toNat / 16777216), UInt8.ofNat (w.toNat / 65536), UInt8.ofNat (w.toNat / 256),
    UInt8.ofNat w.toNat]

@[simp] theorem length_ofWord (w : UInt32) : (ofWord w).length = 4 := rfl

def joinWord (a b c d : UInt8) : UInt32 :=
  UInt32.ofNat (a.toNat * 16777216 + b.toNat * 65536 + c.toNat * 256 + d.toNat)

/-- The word in the first four bytes, or zero if there are fewer. -/
def toWord : Bytes → UInt32
  | a :: b :: c :: d :: _ => joinWord a b c d
  | _ => 0

theorem toNat_joinWord (a b c d : UInt8) :
    (joinWord a b c d).toNat
      = a.toNat * 16777216 + b.toNat * 65536 + c.toNat * 256 + d.toNat := by
  have ha := a.toNat_lt
  have hb := b.toNat_lt
  have hc := c.toNat_lt
  have hd := d.toNat_lt
  rw [joinWord, UInt32.toNat_ofNat']
  omega

@[simp] theorem toWord_ofWord_append (w : UInt32) (rest : Bytes) :
    toWord (ofWord w ++ rest) = w := by
  apply UInt32.toNat_inj.mp
  have hw := w.toNat_lt
  simp only [ofWord, List.cons_append, toWord, toNat_joinWord, UInt8.toNat_ofNat']
  omega

theorem ofWord_joinWord (a b c d : UInt8) : ofWord (joinWord a b c d) = [a, b, c, d] := by
  have ha := a.toNat_lt
  have hb := b.toNat_lt
  have hc := c.toNat_lt
  have hd := d.toNat_lt
  simp only [ofWord, toNat_joinWord, List.cons.injEq, and_true, ← UInt8.toNat_inj,
    UInt8.toNat_ofNat']
  omega

/-- The part of a byte string that begins at `start` and has at most `count` bytes. -/
def slice (bytes : Bytes) (start count : Nat) : Bytes :=
  (bytes.drop start).take count

/-- Overwrites the bytes from `start` on with `block`. The block is meant to fit. -/
def overwrite (bytes : Bytes) (start : Nat) (block : Bytes) : Bytes :=
  bytes.take start ++ block ++ bytes.drop (start + block.length)

theorem length_overwrite {bytes block : Bytes} {start : Nat}
    (h : start + block.length ≤ bytes.length) :
    (overwrite bytes start block).length = bytes.length := by
  simp only [overwrite, List.length_append, List.length_take, List.length_drop]
  omega

def hexDigit (n : UInt8) : Char :=
  let low := n &&& 15
  if low < 10 then Char.ofUInt8 (48 + low) else Char.ofUInt8 (87 + low)

def hexPair (b : UInt8) : List Char := [hexDigit (b >>> 4), hexDigit b]

def hex (bytes : Bytes) : String := String.ofList (bytes.flatMap hexPair)

def hexValue? (code : UInt8) : Option UInt8 :=
  if 48 ≤ code && code ≤ 57 then some (code - 48)
  else if 97 ≤ code && code ≤ 102 then some (code - 87)
  else if 65 ≤ code && code ≤ 70 then some (code - 55)
  else none

/-- Reads pairs of hexadecimal digits, given as ASCII codes. On failure it gives the first code
that is no digit, and where it stands. A code left over at the end is ignored. -/
def ofHex (codes : Bytes) (position : Nat) : Except (UInt8 × Nat) Bytes :=
  match codes with
  | high :: low :: rest =>
    match hexValue? high, hexValue? low with
    | some h, some l => (ofHex rest (position + 2)).map (((h <<< 4) ||| l) :: ·)
    | none, _ => .error (high, position)
    | some _, none => .error (low, position + 1)
  | _ => .ok []

def ofText (text : String) : Bytes := text.toUTF8.toList

end Bytes

end TorrentCore
