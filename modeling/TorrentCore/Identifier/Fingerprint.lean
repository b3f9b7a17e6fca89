import TorrentCore.Identifier

/-!
# Fingerprints of peer identifiers

A client puts a fingerprint at the front of its peer identifier: a dash, its two-letter code, four
version digits and a dash. The other twelve bytes are random.
-/

namespace TorrentCore.Fingerprint

def clientCode : Bytes := Bytes.ofText "PS"

def version : String := "0.1.0"

def digits : Bytes :=
  Bytes.ofText "0123456789ABCDEFGHIJKLMNOPQRSTUVWXYZabcdefghijklmnopqrstuvwxyz.-"

/-- The character of a version digit; those past the alphabet share its last character. -/
def digit (value : UInt8) : UInt8 := digits.getD value.toNat 45

def make (client : UInt8 × UInt8) (a b c d : UInt8) : Bytes :=
  [45, client.1, client.2, digit a, digit b, digit c, digit d, 45]

def identifier (fingerprint : Bytes) (random : Bytes) : Identifier :=
  Identifier.ofStart (fingerprint ++ random)

def own : Bytes := make (80, 83) 0 1 0 0

end TorrentCore.Fingerprint
