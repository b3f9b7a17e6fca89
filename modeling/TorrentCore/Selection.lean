import TorrentCore.Bitfield

/-!
# Which piece to ask a peer for

A piece is a candidate if the peer has it, we do not, and it is neither reserved nor outside what
may be fetched. The rarest candidate is taken. Equally rare candidates are met one after the other;
the `k`-th of them replaces the one held so far with probability `1 / k`, so that each of them is
left at the end with the same probability. The coin is a parameter: it may be random, scripted or a
distribution.
-/

namespace TorrentCore

/-- What to ask a peer for. -/
inductive Suggestion where
  | piece (index : Nat)
  /-- The peer has nothing for us now, but pieces are missing. -/
  | noneAvailable
  /-- No piece is missing. -/
  | complete
deriving DecidableEq, Repr

/-- What the choice depends on. A view that is not given restricts nothing. -/
structure Selection where
  pieceCount : Nat
  ours : ByteView
  peer : ByteView
  reserved : Option ByteView
  allowed : Option ByteView
  availability : Option (Array UInt32)

namespace Selection

/-- The bits of a byte that belong to pieces. -/
def byteMask (s : Selection) (position : Nat) : UInt8 :=
  if position + 1 = bitfieldLength s.pieceCount then lastByteMask s.pieceCount else 0xff

/-- The candidates among the eight pieces of a byte. -/
def candidateByte (s : Selection) (position : Nat) : UInt8 :=
  let wanted := s.peer.get position &&& ~~~s.ours.get position &&& s.byteMask position
  let free := match s.reserved with
    | some reserved => wanted &&& ~~~reserved.get position
    | none => wanted
  match s.allowed with
  | some allowed => free &&& allowed.get position
  | none => free

def candidatesIn (s : Selection) (position : Nat) : List Nat :=
  let byte := s.candidateByte position
  if byte = 0 then []
  else ((List.range 8).filter fun i => byte &&& bitMask i != 0).map (position * 8 + ·)

/-- All candidates, in ascending order. Past the end of what the peer has there are none. -/
def candidates (s : Selection) : List Nat :=
  (List.range (min (bitfieldLength s.pieceCount) s.peer.size)).flatMap s.candidatesIn

/-- How many peers have a piece. Nothing is known without counts, and past their end no peer has
one. -/
def rarity (s : Selection) (index : Nat) : UInt32 :=
  match s.availability with
  | some availability => availability.getD index 0
  | none => 0

/-- The candidate held so far: its index, its rarity, and how many equally rare ones were met. -/
structure Held where
  index : Nat
  rarity : UInt32
  ties : Nat
deriving DecidableEq, Repr

/-- Meets one more candidate. `coin n` comes up with probability `1 / n`. -/
def meet {m : Type → Type} [Monad m] (coin : Nat → m Bool) (s : Selection) (held : Option Held)
    (index : Nat) : m (Option Held) :=
  let rarity := s.rarity index
  match held with
  | none => pure (some ⟨index, rarity, 1⟩)
  | some h =>
    if h.rarity < rarity then pure held
    else if rarity = h.rarity then do
      let replaced ← coin (h.ties + 1)
      pure (some { h with index := if replaced then index else h.index, ties := h.ties + 1 })
    else pure (some ⟨index, rarity, 1⟩)

/-- Whether no piece is missing. Past the end of what we have every piece is. -/
def haveAll (s : Selection) : Bool :=
  bitfieldLength s.pieceCount ≤ s.ours.size
    && (List.range (bitfieldLength s.pieceCount)).all fun position =>
      s.ours.get position &&& s.byteMask position == s.byteMask position

/-- The choice, with the coins it takes. -/
def suggest {m : Type → Type} [Monad m] (coin : Nat → m Bool) (s : Selection) : m Suggestion := do
  let held ← s.candidates.foldlM (s.meet coin) none
  match held with
  | some h => pure (.piece h.index)
  | none => pure (if s.haveAll then .complete else .noneAvailable)

end Selection

/-- A coin that follows a list of outcomes and comes up tails at its end. -/
def scriptedCoin (_ : Nat) : StateM (List Bool) Bool := fun outcomes =>
  match outcomes with
  | [] => (false, [])
  | outcome :: rest => (outcome, rest)

/-- A source of machine words that starts again at its end. -/
structure WordSource where
  words : List UInt64
  left : List UInt64
  used : Nat

namespace WordSource

/-- No words count as a single zero. -/
def ofList (words : List UInt64) : WordSource :=
  ⟨if words.isEmpty then [0] else words, [], 0⟩

def next (s : WordSource) : UInt64 × WordSource :=
  match s.left with
  | w :: rest => (w, ⟨s.words, rest, s.used + 1⟩)
  | [] => match s.words with
    | w :: rest => (w, ⟨s.words, rest, s.used + 1⟩)
    | [] => (0, ⟨s.words, [], s.used + 1⟩)

/-- The largest word below which a coin of probability `1 / n` comes up: the probability as a
double, times `2 ^ 64`, rounded down. -/
def threshold (n : Nat) : UInt64 := (1.0 / n.toFloat * 18446744073709551616.0).toUInt64

/-- A coin of probability `1 / n`. It takes one word, unless its outcome is certain. -/
def coin (n : Nat) : StateM WordSource Bool := fun s =>
  if n ≤ 1 then (true, s)
  else
    let (w, s) := s.next
    (w < threshold n, s)

end WordSource

end TorrentCore
