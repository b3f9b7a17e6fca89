import TorrentCore.Proofs.Bytes
import TorrentCore.Proofs.Wire.Frame

/-!
# Frames that have not come whole

A reader that finds only a part of a frame is told how many bytes to wait for. That number is exact:
until so many have come there is no frame, and once its length word is there they end it
(`Unfinished`). Every other answer is about bytes that are there and stays as it is whatever
follows.

That a whole frame is never found to be too short is a matter of what reading it looks at. `read?`
is reading with every position checked, and with the question whether the fields of a request are
all there: it never leaves the frame, and it is `decode`.
-/

namespace TorrentCore

namespace Message

open Bytes

variable {bytes : Bytes} {limit : UInt32} {missing : Nat} {part : String}

/-! ### What is missing -/

/-- There is a whole frame at the front, whatever is in it. -/
def BeginsWithFrame (bytes : Bytes) : Prop :=
  ∃ word body rest, bytes = ofWord word ++ (body ++ rest) ∧ body.length = word.toNat

/-- Bytes that begin a frame and do not end it, how many are missing, and in which part of it. -/
inductive Unfinished (limit : UInt32) : Bytes → Nat → String → Prop
  | inWord {bytes : Bytes} (hshort : bytes.length < lengthWordSize) :
      Unfinished limit bytes (lengthWordSize - bytes.length) "length prefix"
  | inBody {word : UInt32} {rest : Bytes} (hlimit : word ≤ limit)
      (hshort : rest.length < word.toNat) :
      Unfinished limit (ofWord word ++ rest) (word.toNat - rest.length) "message"

theorem frameLength_eq_notEnough_iff :
    frameLength bytes limit = .error (.notEnough missing part)
      ↔ Unfinished limit bytes missing part := by
  constructor
  · intro h
    by_cases hshort : bytes.length < lengthWordSize
    · rw [frameLength_of_short hshort] at h
      cases h
      exact .inWord hshort
    · obtain ⟨word, rest, rfl⟩ := eq_ofWord_append_of_le (Nat.le_of_not_lt hshort)
      rw [frameLength_ofWord_append] at h
      split at h
      · cases h
      next hlimit =>
      split at h
      · next hmissing =>
        cases h
        exact .inBody (UInt32.not_lt.mp hlimit) hmissing
      · cases h
  · intro h
    cases h with
    | inWord hshort => exact frameLength_of_short hshort limit
    | inBody hlimit hshort =>
        rw [frameLength_ofWord_append, if_neg (UInt32.not_lt.mpr hlimit), if_pos hshort]

theorem decode_eq_notEnough_iff :
    decode bytes limit = .error (.notEnough missing part)
      ↔ Unfinished limit bytes missing part := by
  rw [← frameLength_eq_notEnough_iff]
  exact ⟨frameLength_of_notEnough, decode_of_frameLength_error⟩

theorem Unfinished.pos (h : Unfinished limit bytes missing part) : 0 < missing := by
  cases h with
  | inWord hshort => omega
  | inBody _ hshort => omega

/-- With some of the missing bytes, the others are missing. -/
theorem Unfinished.append (h : Unfinished limit bytes missing part) {more : Bytes}
    (hmore : more.length < missing) :
    Unfinished limit (bytes ++ more) (missing - more.length) part := by
  cases h with
  | inWord hshort =>
      have hlength : (bytes ++ more).length = bytes.length + more.length := List.length_append
      have hstill : Unfinished limit (bytes ++ more) _ _ := .inWord (by omega)
      rwa [hlength, ← Nat.sub_sub] at hstill
  | @inBody word rest hlimit hshort =>
      have hlength : (rest ++ more).length = rest.length + more.length := List.length_append
      have hstill : Unfinished limit (ofWord word ++ (rest ++ more)) _ _ :=
        .inBody hlimit (by omega)
      rwa [hlength, ← Nat.sub_sub, ← List.append_assoc] at hstill

theorem Unfinished.not_beginsWithFrame (h : Unfinished limit bytes missing part) :
    ¬ BeginsWithFrame bytes := by
  rintro ⟨word, body, rest, rfl, hbody⟩
  have hall : lengthWordSize ≤ (ofWord word ++ (body ++ rest)).length := by
    rw [List.length_append, length_ofWord]
    exact Nat.le_add_right _ _
  generalize hwhole : ofWord word ++ (body ++ rest) = whole at h hall
  cases h with
  | inWord hshort => exact absurd hshort (Nat.not_lt.mpr hall)
  | @inBody word' rest' _ hshort =>
      obtain ⟨hword, hrest⟩ := List.append_inj hwhole rfl
      have hsame : word = word' := by
        rw [← toWord_ofWord word, hword, toWord_ofWord]
      rw [← hrest, List.length_append, ← hsame] at hshort
      omega

/-- With all of the missing bytes there is a frame, if it was its body that they were missing
from. -/
theorem Unfinished.frameLength_append (h : Unfinished limit bytes missing part)
    (hword : lengthWordSize ≤ bytes.length) {more : Bytes} (hmore : more.length = missing) :
    frameLength (bytes ++ more) limit = .ok (bytes.length + missing) := by
  cases h with
  | inWord hshort => exact absurd hshort (Nat.not_lt.mpr hword)
  | @inBody word rest hlimit hshort =>
      have hbody : (rest ++ more).length = word.toNat := by
        rw [List.length_append]
        omega
      rw [List.length_append, length_ofWord]
      refine frameLength_eq_ok_iff.mpr ⟨word, rest ++ more, [], ?_, hlimit, hbody, by omega⟩
      rw [List.append_nil, List.append_assoc]

/-! ### What stays -/

theorem frameLength_append {result : Except DecodeError Nat} (h : frameLength bytes limit = result)
    (hfinal : ∀ missing part, result ≠ .error (.notEnough missing part)) (more : Bytes) :
    frameLength (bytes ++ more) limit = result := by
  cases result with
  | ok size =>
      obtain ⟨word, body, rest, rfl, hlimit, hbody, rfl⟩ := frameLength_eq_ok_iff.mp h
      refine frameLength_eq_ok_iff.mpr ⟨word, body, rest ++ more, ?_, hlimit, hbody, rfl⟩
      rw [List.append_assoc, List.append_assoc]
  | error e =>
      rcases frameLength_eq_error h with ⟨word, rest, rfl, hword, rfl⟩ | ⟨_, _, rfl, _⟩
      · rw [List.append_assoc, frameLength_ofWord_append, if_pos hword]
      · exact absurd rfl (hfinal _ _)

theorem decode_append {result : Except DecodeError (Message × Nat)}
    (h : decode bytes limit = result)
    (hfinal : ∀ missing part, result ≠ .error (.notEnough missing part)) (more : Bytes) :
    decode (bytes ++ more) limit = result := by
  cases result with
  | ok read => exact decode_append_of_ok h more
  | error e => exact decode_append_of_error h (fun _ _ he => hfinal _ _ (congrArg _ he)) more

/-! ### Reading with checked positions -/

def wordAt? (bytes : Bytes) (start : Nat) : Option UInt32 :=
  (bytes.between? start (start + lengthWordSize)).map Bytes.toWord

theorem wordAt?_eq {start : Nat} (h : start + lengthWordSize ≤ bytes.length) :
    wordAt? bytes start = some (Bytes.toWord (bytes.drop start)) := by
  have hlong : lengthWordSize ≤ (bytes.drop start).length := by
    rw [List.length_drop]
    omega
  obtain ⟨word, rest, hword⟩ := eq_ofWord_append_of_le hlong
  have hfront : bytes.slice start lengthWordSize = ofWord word := by
    rw [slice, hword, lengthWordSize, ← length_ofWord word, List.take_left]
  rw [wordAt?, between?, if_pos ⟨Nat.le_add_right _ _, h⟩, Nat.add_sub_cancel_left, hfront,
    Option.map_some, toWord_ofWord, hword, toWord_ofWord_append]

/-- The fields of a request. If there are too few bytes for them more are asked for; with too many
there is no saying how many are missing. -/
def blockRequest? (payload : Bytes) : Option (Except DecodeError BlockRequest) :=
  if payload.length = 12 then do
    let index ← wordAt? payload 0
    let offset ← wordAt? payload 4
    let length ← wordAt? payload 8
    some (.ok ⟨index, offset, length⟩)
  else if payload.length ≤ 12 then some (.error (.notEnough (12 - payload.length) "request"))
  else none

def piece? (payload : Bytes) : Option (Except DecodeError Message) := do
  let index ← wordAt? payload 0
  let offset ← wordAt? payload 4
  let block ← payload.between? 8 payload.length
  some (.ok (.piece index offset block))

def ofPayload? (word : UInt32) (kind : UInt8) (payload : Bytes) (frame : Nat) :
    Option (Except DecodeError Message) :=
  let exactly (expected : UInt32) (read : Option (Except DecodeError Message)) :=
    if word = expected then read else some (.error (.wrongLength word expected kind))
  match kind.toNat with
  | 0 => exactly 1 (some (.ok .choke))
  | 1 => exactly 1 (some (.ok .unchoke))
  | 2 => exactly 1 (some (.ok .interested))
  | 3 => exactly 1 (some (.ok .notInterested))
  | 4 => exactly 5 ((wordAt? payload 0).map fun index => .ok (.has index))
  | 5 => some (.ok (.bitfield payload))
  | 6 => exactly 13 ((blockRequest? payload).map fun r => r.map .request)
  | 7 =>
    if word < 10 then some (.error (.wrongLength word 10 kind))
    else piece? payload
  | 8 => exactly 13 ((blockRequest? payload).map fun r => r.map .cancel)
  | _ => some (.error (.unsupported kind frame))

/-- As `decode`, looking at nothing that is not there. -/
def read? (bytes : Bytes) (limit : UInt32) : Option (Except DecodeError (Message × Nat)) :=
  match frameLength bytes limit with
  | .error e => some (.error e)
  | .ok frame =>
    if frame = lengthWordSize then some (.ok (.keepAlive, frame))
    else do
      let kind ← bytes[lengthWordSize]?
      let payload ← bytes.between? (lengthWordSize + 1) frame
      let message ← ofPayload? (UInt32.ofNat (frame - lengthWordSize)) kind payload frame
      some (message.map fun m => (m, frame))

theorem blockRequest?_eq {payload : Bytes} (h : payload.length = 12) :
    blockRequest? payload = some (.ok
      ⟨payload.toWord, Bytes.toWord (payload.drop 4), Bytes.toWord (payload.drop 8)⟩) := by
  have hfirst : wordAt? payload 0 = _ := wordAt?_eq (by rw [h]; decide)
  have hsecond : wordAt? payload 4 = _ := wordAt?_eq (by rw [h]; decide)
  have hthird : wordAt? payload 8 = _ := wordAt?_eq (by rw [h]; decide)
  rw [blockRequest?, if_pos h, hfirst, hsecond, hthird]
  rfl

theorem piece?_eq {payload : Bytes} (h : 8 ≤ payload.length) :
    piece? payload = some (.ok
      (.piece payload.toWord (Bytes.toWord (payload.drop 4)) (payload.drop 8))) := by
  have hfirst : wordAt? payload 0 = _ := wordAt?_eq (by rw [lengthWordSize]; omega)
  have hsecond : wordAt? payload 4 = _ := wordAt?_eq (by rw [lengthWordSize]; omega)
  have hblock : payload.between? 8 payload.length = _ := between?_length h
  rw [piece?, hfirst, hsecond, hblock]
  rfl

/-- The length word says how long the payload is, so whatever is read from it is there. -/
theorem ofPayload?_eq {word : UInt32} {payload : Bytes} (h : payload.length + 1 = word.toNat)
    (kind : UInt8) (frame : Nat) :
    ofPayload? word kind payload frame = some (ofPayload word kind payload frame) := by
  have hexactly : ∀ (expected : UInt32) {read : Option (Except DecodeError Message)} {m : Message},
      (word = expected → read = some (.ok m)) →
      (if word = expected then read else some (.error (.wrongLength word expected kind)))
        = some (if word = expected then .ok m
          else .error (.wrongLength word expected kind)) := by
    intro expected read m hread
    split
    · next hword => exact hread hword
    · rfl
  have hlength : ∀ expected : UInt32, word = expected → payload.length + 1 = expected.toNat :=
    fun expected hword => hword ▸ h
  have hguarded : ∀ {read : Option (Except DecodeError Message)} {m : Message},
      (¬ word < 10 → read = some (.ok m)) →
      (if word < 10 then some (.error (.wrongLength word 10 kind)) else read)
        = some (if word < 10 then .error (.wrongLength word 10 kind) else .ok m) := by
    intro read m hread
    split
    · rfl
    · next hten => exact hread hten
  simp only [ofPayload?, ofPayload]
  -- One case for each kind, where both functions take the same branch.
  generalize kind.toNat = number
  match number with
  | 0 | 1 | 2 | 3 => exact hexactly 1 fun _ => rfl
  | 4 =>
      refine hexactly 5 fun hword => ?_
      have hfour := Nat.succ.inj (hlength 5 hword)
      rw [wordAt?_eq (by rw [hfour]; decide)]
      rfl
  | 5 => rfl
  | 6 | 8 =>
      refine hexactly 13 fun hword => ?_
      rw [blockRequest?_eq (Nat.succ.inj (hlength 13 hword))]
      rfl
  | 7 =>
      refine hguarded fun hten => piece?_eq ?_
      have hten' : 10 ≤ word.toNat := UInt32.le_iff_toNat_le.mp (UInt32.not_lt.mp hten)
      omega
  | _ + 9 => rfl

theorem read?_eq (bytes : Bytes) (limit : UInt32) :
    read? bytes limit = some (decode bytes limit) := by
  cases hframe : frameLength bytes limit with
  | error e =>
      rw [read?, hframe, decode_of_frameLength_error hframe]
  | ok frame =>
      obtain ⟨word, body, rest, rfl, hlimit, hbody, rfl⟩ := frameLength_eq_ok_iff.mp hframe
      have hcount : 4 + word.toNat - lengthWordSize = word.toNat := Nat.add_sub_cancel_left _ _
      rw [read?, hframe, decode_frame hlimit hbody]
      dsimp only
      cases body with
      | nil =>
          have hempty : 4 + word.toNat = lengthWordSize := by
            rw [← hbody]
            rfl
          rw [if_pos hempty]
          rfl
      | cons kind payload =>
          rw [List.length_cons] at hbody
          have hmore : ¬ 4 + word.toNat = lengthWordSize := by
            rw [lengthWordSize]
            omega
          have hkind : (ofWord word ++ (kind :: payload ++ rest))[lengthWordSize]? = some kind :=
            rfl
          have hpayload : Bytes.between? (ofWord word ++ (kind :: payload ++ rest))
              (lengthWordSize + 1) (4 + word.toNat) = some payload := by
            have hbounds : lengthWordSize + 1 ≤ 4 + word.toNat
                ∧ 4 + word.toNat ≤ (ofWord word ++ (kind :: payload ++ rest)).length := by
              simp only [List.length_append, length_ofWord, List.length_cons, lengthWordSize]
              omega
            have hlength : 4 + word.toNat - (lengthWordSize + 1) = payload.length := by
              rw [lengthWordSize]
              omega
            rw [between?, if_pos hbounds, hlength]
            exact congrArg some (List.take_left' rfl)
          rw [if_neg hmore, hkind, hpayload, hcount, UInt32.ofNat_toNat]
          simp only [Option.bind_eq_bind, Option.bind_some, ofPayload?_eq hbody, ofBody]

/-! ### Reading as bytes come in -/

/-- What it means that so many bytes are missing. -/
structure Awaits (limit : UInt32) (bytes : Bytes) (missing : Nat) (part : String) : Prop where
  pos : 0 < missing
  /-- Until they are there the others are asked for, and there is no frame. -/
  still : ∀ more : Bytes, more.length < missing →
    frameLength (bytes ++ more) limit = .error (.notEnough (missing - more.length) part)
      ∧ decode (bytes ++ more) limit = .error (.notEnough (missing - more.length) part)
      ∧ ¬ BeginsWithFrame (bytes ++ more)
  /-- If the length word is there, they are all that is missing. -/
  enough : lengthWordSize ≤ bytes.length → ∀ more : Bytes, more.length = missing →
    frameLength (bytes ++ more) limit = .ok (bytes.length + missing)

theorem Unfinished.awaits (h : Unfinished limit bytes missing part) :
    Awaits limit bytes missing part where
  pos := h.pos
  still _ hmore :=
    ⟨frameLength_eq_notEnough_iff.mpr (h.append hmore), decode_eq_notEnough_iff.mpr (h.append hmore),
      (h.append hmore).not_beginsWithFrame⟩
  enough hword _ hmore := h.frameLength_append hword hmore

/-- Reading asks for what is missing, no more and no less, and any other answer is its last word on
the frame. Where a frame was found nothing more is asked for, because nothing is looked at outside
of it. -/
theorem asks_for_what_is_missing (bytes : Bytes) (limit : UInt32) :
    (∀ missing part, frameLength bytes limit = .error (.notEnough missing part)
        ∨ decode bytes limit = .error (.notEnough missing part) → Awaits limit bytes missing part)
      ∧ (∀ result, frameLength bytes limit = result →
        (∀ missing part, result ≠ .error (.notEnough missing part)) →
        ∀ more, frameLength (bytes ++ more) limit = result)
      ∧ (∀ result, decode bytes limit = result →
        (∀ missing part, result ≠ .error (.notEnough missing part)) →
        ∀ more, decode (bytes ++ more) limit = result)
      ∧ (∀ kind size, decode bytes limit = .error (.unsupported kind size) →
        frameLength bytes limit = .ok size)
      ∧ (∀ size, frameLength bytes limit = .ok size →
        ∀ missing part, decode bytes limit ≠ .error (.notEnough missing part))
      ∧ read? bytes limit = some (decode bytes limit) := by
  refine ⟨?_, fun result => frameLength_append, fun result => decode_append,
    fun kind size => frameLength_of_unsupported, ?_, read?_eq bytes limit⟩
  · rintro missing part (hframe | hdecode)
    · exact (frameLength_eq_notEnough_iff.mp hframe).awaits
    · exact (decode_eq_notEnough_iff.mp hdecode).awaits
  · intro size hframe missing part hdecode
    rw [frameLength_of_notEnough hdecode] at hframe
    cases hframe

/-- The frame of a message that tells of a piece, cut inside its length word and inside its body,
and a whole frame of a kind that is not spoken here. -/
theorem asks_for_what_is_missing_cut :
    frameLength [0, 0] 9 = .error (.notEnough 2 "length prefix")
      ∧ decode ([0, 0] ++ [0]) 9 = .error (.notEnough 1 "length prefix")
      ∧ decode [0, 0, 0, 5, 4, 0] 9 = .error (.notEnough 3 "message")
      ∧ decode ([0, 0, 0, 5, 4, 0] ++ [0, 0]) 9 = .error (.notEnough 1 "message")
      ∧ ¬ BeginsWithFrame ([0, 0, 0, 5, 4, 0] ++ [0, 0])
      ∧ frameLength ([0, 0, 0, 5, 4, 0] ++ [0, 0, 7]) 9 = .ok 9
      ∧ read? [0, 0, 0, 5, 4, 0, 0, 0, 7] 9 = some (.ok (.has 7, 9))
      ∧ decode ([0, 0, 0, 3, 9, 26, 225] ++ [0, 0, 0]) 9 = .error (.unsupported 9 7)
      ∧ frameLength ([0, 0, 0, 10] ++ [255]) 9 = .error (.tooLong 10 9) := by
  have hword : frameLength [0, 0] 9 = .error (.notEnough 2 "length prefix") := rfl
  have hbody : decode [0, 0, 0, 5, 4, 0] 9 = .error (.notEnough 3 "message") := rfl
  obtain ⟨hwaits, -⟩ := asks_for_what_is_missing [0, 0] 9
  obtain ⟨hwaits', -⟩ := asks_for_what_is_missing [0, 0, 0, 5, 4, 0] 9
  obtain ⟨-, -, -, -, -, hread⟩ := asks_for_what_is_missing [0, 0, 0, 5, 4, 0, 0, 0, 7] 9
  obtain ⟨-, -, hlast, -⟩ := asks_for_what_is_missing [0, 0, 0, 3, 9, 26, 225] 9
  obtain ⟨-, hlast', -⟩ := asks_for_what_is_missing [0, 0, 0, 10] 9
  obtain ⟨-, hstill, hnone⟩ := (hwaits' 3 _ (.inr hbody)).still [0, 0] (by decide)
  refine ⟨hword, ((hwaits 2 _ (.inl hword)).still [0] (by decide)).2.1, hbody, hstill, hnone,
    (hwaits' 3 _ (.inr hbody)).enough (by decide) _ rfl, hread.trans rfl,
    hlast _ rfl ?_ _, hlast' _ rfl ?_ _⟩
  · exact fun _ _ he => DecodeError.noConfusion (Except.error.inj he)
  · exact fun _ _ he => DecodeError.noConfusion (Except.error.inj he)

end Message

end TorrentCore
