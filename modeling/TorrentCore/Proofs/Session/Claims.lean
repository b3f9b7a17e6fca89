import TorrentCore.Proofs.Reservation
import TorrentCore.Proofs.Session.Owned
import TorrentCore.Proofs.Session.Shift

/-!
# How reservations end

A session does not know which requester has reserved a piece, only which peer the piece was last
asked from. So notes are taken beside its runs: who reserved each piece and until when, and from
which peer the piece that is being verified was asked when its last block came. `Fares` says what
an event does to one piece, and the invariant `Accounted` ties the notes to the session. A
reservation that is over has run out, or its connection was closed out, or its piece was done. But
a connection is closed out, and a piece is done, without regard to whose the reservation is: so an
older connection of the same peer can end it, and so can a piece that another peer has completed.
-/

namespace TorrentCore

namespace Session

/-! ### Notes -/

/-- A reservation that the requester of a connection made. -/
structure Claim where
  number : Nat
  deadline : Nanoseconds

structure Notes where
  claims : Nat → Option Claim
  /-- Which peer the piece that is being verified was last asked from when its last block came. -/
  provider : Option Identifier

def Notes.empty : Notes := ⟨fun _ => none, none⟩

def Event.requester? : Event → Option Nat
  | .own (.request number _) => some number
  | _ => none

/-- A piece that is reserved now and was not before is the claim of the requester whose turn it
was. -/
def Notes.next (notes : Notes) (now : Nanoseconds) (s : Session) (event : Event) (s' : Session) :
    Notes where
  claims index :=
    if s'.reservations.isReserved index then
      if s.reservations.isReserved index then notes.claims index
      else event.requester?.map fun number => ⟨number, now + s.policy.ttl s.owned.ratio⟩
    else none
  provider := match event with
    | .own .consume => s'.verifying.bind fun piece => s.owners.get? piece.piece
    | _ => notes.provider

def takeNotes : List (Nanoseconds × Event) → Session → Notes → Notes
  | [], _, notes => notes
  | (now, event) :: rest, s, notes => match s.happen? now event with
    | some s' => takeNotes rest s' (notes.next now s event s')
    | none => notes

theorem takeNotes_invariant {P : Session → Notes → Prop}
    (hstep : ∀ {now s event s' notes}, P s notes → happen? now s event = some s' →
      P s' (notes.next now s event s'))
    {events : List (Nanoseconds × Event)} {s s' : Session} {notes : Notes} (hs : P s notes)
    (hrun : run? events s = some s') : P s' (takeNotes events s notes) := by
  induction events generalizing s notes with
  | nil =>
      cases hrun
      exact hs
  | cons entry events ih =>
      obtain ⟨now, event⟩ := entry
      obtain ⟨next, hnext, hrest⟩ := Option.bind_eq_some_iff.mp hrun
      have hnext' : s.happen? now event = some next := hnext
      rw [takeNotes, hnext']
      exact ih (hstep hs hnext) hrest

/-! ### One piece -/

/-- What becomes of the reservation of one piece. The deadlines are kept as a map. -/
inductive Fares (now : Nanoseconds) (s : Session) (event : Event) (r : Register) (m m' : Deadlines)
    (index : Nat) : Prop
  | kept (hdeadline : m'.lookup index = m.lookup index)
      (howner : r.owners.get? index = s.owners.get? index)
  | claimed (number : Nat) (coins : List Bool) (d : Duty)
      (hevent : event = .own (.request number coins)) (hfree : m.lookup index = none)
      (hdeadline : m'.lookup index = some (now + s.policy.ttl s.owned.ratio))
      (hduty : s.register.duty number = some d) (howner : r.owners.get? index = some d.fate.peerId)
  | expired (hevent : event = .own .expire) (hdeadline : m'.lookup index = none)
      (hdue : ∀ deadline, m.lookup index = some deadline → deadline ≤ now)
  | closedOut (number : Nat) (d : Duty) (hevent : event = .own (.closeOut number))
      (hduty : s.register.duty number = some d) (hended : d.hasEnded = true)
      (hdeadline : m'.lookup index = none) (howner : s.owners.get? index = some d.fate.peerId)
  | finished (piece : AssembledPiece) (hevent : event = .own .finishPiece)
      (hverifying : s.verifying = some piece) (hactive : s.cancelled = false)
      (hpiece : piece.piece = index) (hdeadline : m'.lookup index = none)

structure Turnover (now : Nanoseconds) (s : Session) (event : Event) (r : Register) (m : Deadlines)
    (m' : Deadlines) : Prop where
  represents : r.reservations.Represents s.pieceCount m'
  nodup : r.owners.keys.Nodup
  fares : ∀ index, Fares now s event r m m' index

theorem represents_releaseAll {pieceCount : Nat} {r : Register} {m : Deadlines}
    (h : r.reservations.Represents pieceCount m) (hnodup : r.owners.keys.Nodup)
    (indices : List Nat) :
    ∃ m', (r.releaseAll indices).reservations.Represents pieceCount m'
      ∧ (r.releaseAll indices).owners.keys.Nodup
      ∧ (∀ index ∈ indices, m'.lookup index = none)
      ∧ ∀ index, index ∉ indices → m'.lookup index = m.lookup index
        ∧ (r.releaseAll indices).owners.get? index = r.owners.get? index := by
  unfold Register.releaseAll
  induction indices generalizing r m with
  | nil => exact ⟨m, h, hnodup, fun index hindex => absurd hindex List.not_mem_nil,
      fun index _ => ⟨rfl, rfl⟩⟩
  | cons first indices ih =>
      obtain ⟨m', hm', hnodup', hgone, hkept⟩ := ih (r := r.release first) (h.release first).2
        (Table.nodup_keys_erase hnodup first)
      refine ⟨m', hm', hnodup', fun index hindex => ?_, fun index hindex => ?_⟩
      · by_cases hrest : index ∈ indices
        · exact hgone index hrest
        · obtain rfl : index = first := (List.mem_cons.mp hindex).resolve_right hrest
          rw [(hkept index hrest).1, Finmap.lookup_erase]
      · rw [List.mem_cons, not_or] at hindex
        obtain ⟨hdeadline, howner⟩ := hkept index hindex.2
        rw [Finmap.lookup_erase_ne hindex.1] at hdeadline
        exact ⟨hdeadline, howner.trans (Table.get?_erase_of_ne hindex.1)⟩

theorem turnover_same {now : Nanoseconds} {s : Session} {event : Event} {r : Register}
    {m : Deadlines} (h : s.reservations.Represents s.pieceCount m) (hnodup : s.owners.keys.Nodup)
    (hreservations : r.reservations = s.reservations) (howners : r.owners = s.owners) :
    Turnover now s event r m m :=
  ⟨hreservations ▸ h, howners ▸ hnodup, fun _ => .kept rfl (by rw [howners])⟩

theorem turnover_move {now : Nanoseconds} {s : Session} {number : Nat} {coins : List Bool}
    {d : Duty}
    {r : Register} {m : Deadlines} (h : s.reservations.Represents s.pieceCount m)
    (hnodup : s.owners.keys.Nodup) (hduty : s.register.duty number = some d)
    (hmove : Move s now number d r) :
    ∃ m', Turnover now s (.own (.request number coins)) r m m' := by
  cases hmove with
  | onward | paused | refused => exact ⟨m, turnover_same h hnodup rfl rfl⟩
  | parted told =>
      refine ⟨m, turnover_same h hnodup ?_ ?_⟩ <;> split <;> rfl
  | claimed index reservations cursor hclaiming hreserve =>
      obtain ⟨m', hanswer, hafter⟩ := h.reserve now index (s.policy.ttl s.owned.ratio)
      rw [Reservations.answer, hreserve] at hanswer hafter
      cases hanswer with
      | reserved _ _ _ hindex hfree =>
      refine ⟨m.insert index (now + s.policy.ttl s.owned.ratio), hafter,
        Table.nodup_keys_insert hnodup _ _, fun index' => ?_⟩
      by_cases heq : index' = index
      · subst heq
        exact .claimed number coins d rfl (Finmap.lookup_eq_none.mpr hfree) (Finmap.lookup_insert m)
          hduty Table.get?_insert_self
      · exact .kept (Finmap.lookup_insert_of_ne m heq)
          (Table.get?_insert_of_ne heq)

theorem turnover_expire {now : Nanoseconds} {s : Session} {m : Deadlines} {expiry : ExpiryLoop}
    {reservations : Reservations} (h : s.reservations.Represents s.pieceCount m)
    (hnodup : s.owners.keys.Nodup)
    (hstep : s.expiry.step? now s.reservations = some (expiry, reservations)) :
    ∃ m', Turnover now s (.own .expire) { s.register with reservations := reservations } m m' := by
  unfold ExpiryLoop.step? at hstep
  split at hstep
  · cases hstep
    obtain ⟨m', hanswer, hafter⟩ := h.expire now
    cases hanswer with
    | expired _ indices _ hdistinct hmem hsorted hrest =>
    refine ⟨m', hafter, hnodup, fun index => ?_⟩
    have hlookup := hrest index
    split at hlookup
    · next hindex =>
      obtain ⟨deadline, hdeadline, hdue⟩ := (hmem index).mp hindex
      refine .expired rfl hlookup fun deadline' hdeadline' => ?_
      cases hdeadline.symm.trans hdeadline'
      exact hdue
    · exact .kept hlookup rfl
  · cases hstep
    exact ⟨m, h.discardStale, hnodup, fun _ => .kept rfl rfl⟩
  · -- The loop wakes up.
    have hsame : s.reservations.Represents s.pieceCount m →
        ({ s.reservations with changed := false } : Reservations).Represents s.pieceCount m :=
      fun h => ⟨h.wellFormed, h.pieceCount_eq, h.contains_eq, h.get_eq, h.nodup, h.sorted, h.queued⟩
    split at hstep
    · cases hstep
      exact ⟨m, hsame h, hnodup, fun _ => .kept rfl rfl⟩
    · split at hstep
      · cases hstep
        exact ⟨m, h, hnodup, fun _ => .kept rfl rfl⟩
      · cases hstep

theorem turnover_of_shift {now : Nanoseconds} {s : Session} {event : Event} {r : Register}
    {m : Deadlines} (hshift : Shift now s event r) (h : s.reservations.Represents s.pieceCount m)
    (hnodup : s.owners.keys.Nodup) : ∃ m', Turnover now s event r m m' := by
  cases hshift with
  | requested number coins d r hduty hrunning hactive hmove =>
      exact turnover_move h hnodup hduty hmove
  | expired expiry reservations hstep => exact turnover_expire h hnodup hstep
  | closedOut number d hduty hended hopen =>
      obtain ⟨m', hm', hnodup', hgone, hkept⟩ := represents_releaseAll (r := { s.register.modify
          number (fun d => { d with requester := .retired, closedOut := true }) with
            peers := if s.register.peers.get? d.fate.peerId = some number
              then s.register.peers.erase d.fate.peerId else s.register.peers })
        h hnodup (s.owners.filter fun _ owner => owner == d.fate.peerId).keys
      refine ⟨m', hm', hnodup', fun index => ?_⟩
      by_cases hindex : index ∈ (s.owners.filter fun _ owner => owner == d.fate.peerId).keys
      · obtain ⟨owner, hget, howner⟩ := (Table.mem_keys_filter hnodup).mp hindex
        exact .closedOut number d rfl hduty hended (hgone index hindex)
          (hget.trans (congrArg some (beq_iff_eq.mp howner)))
      · exact .kept (hkept index hindex).1 (hkept index hindex).2
  | finished piece hverifying hactive =>
      obtain ⟨m', hm', hnodup', hgone, hkept⟩ :=
        represents_releaseAll (r := s.register) h hnodup [piece.piece]
      refine ⟨m', hm', hnodup', fun index => ?_⟩
      by_cases hindex : index ∈ [piece.piece]
      · exact .finished piece rfl hverifying hactive (List.mem_singleton.mp hindex).symm
          (hgone index hindex)
      · exact .kept (hkept index hindex).1 (hkept index hindex).2
  | dropped =>
      obtain ⟨duty, heq⟩ := foldl_tell_eq s.register s.peers.values
      rw [heq]
      exact ⟨m, turnover_same h hnodup rfl rfl⟩
  | _ => exact ⟨m, turnover_same h hnodup rfl rfl⟩

/-! ### Notes and sessions -/

structure Accounted (s : Session) (notes : Notes) : Prop where
  fits : s.Fits
  nodup : s.owners.keys.Nodup
  represents : ∃ m, s.reservations.Represents s.pieceCount m
    ∧ ∀ index, m.lookup index = (notes.claims index).map Claim.deadline
  owner : ∀ index claim, notes.claims index = some claim → ∃ d,
    s.register.duty claim.number = some d ∧ s.owners.get? index = some d.fate.peerId

theorem claims_next {s s' : Session} {pieceCount pieceCount' : Nat} {m m' : Deadlines}
    (hm : s.reservations.Represents pieceCount m) (hm' : s'.reservations.Represents pieceCount' m')
    (notes : Notes) (now : Nanoseconds) (event : Event) (index : Nat) :
    (notes.next now s event s').claims index
      = if (m'.lookup index).isSome then
          if (m.lookup index).isSome then notes.claims index
          else event.requester?.map fun number => ⟨number, now + s.policy.ttl s.owned.ratio⟩
        else none := by
  rw [← hm'.isReserved_eq, ← hm.isReserved_eq]
  rfl

theorem accounted_happen {now : Nanoseconds} {s s' : Session} {event : Event} {notes : Notes}
    (h : Accounted s notes) (hstep : s.happen? now event = some s') :
    Accounted s' (notes.next now s event s') := by
  have hshift := shift_of_happen hstep
  have hgains := gains_happen hstep
  obtain ⟨m, hm, hclaims⟩ := h.represents
  obtain ⟨m', hturnover⟩ := turnover_of_shift hshift hm h.nodup
  have hm' : s'.reservations.Represents s'.pieceCount m' :=
    hgains.pieceCount_eq ▸ hturnover.represents
  have hnext := claims_next hm hm' notes now event
  -- Who holds a claim keeps its name.
  have hnamed : ∀ {number d}, s.register.duty number = some d →
      ∃ d', s'.register.duty number = some d' ∧ d'.fate.peerId = d.fate.peerId := by
    intro number d hduty
    obtain ⟨d', hduty', hchange⟩ := change_of_shift hshift hduty
    exact ⟨d', hduty', hchange.peerId_eq⟩
  refine ⟨hgains.fits h.fits, hturnover.nodup, ⟨m', hm', fun index => ?_⟩,
    fun index claim hclaim => ?_⟩
  · rw [hnext]
    cases hturnover.fares index with
    | kept hdeadline _ =>
        rw [hdeadline]
        cases hlookup : m.lookup index with
        | none => rfl
        | some deadline => exact hlookup.symm.trans (hclaims index)
    | claimed number coins d hevent hfree hdeadline _ _ =>
        rw [hdeadline, hfree, hevent]
        rfl
    | expired _ hdeadline _ | closedOut _ _ _ _ _ hdeadline _ | finished _ _ _ _ _ hdeadline =>
        rw [hdeadline]
        rfl
  · rw [hnext] at hclaim
    cases hturnover.fares index with
    | kept hdeadline howner =>
        rw [hdeadline] at hclaim
        have hbefore : notes.claims index = some claim := by
          split at hclaim
          · exact hclaim
          · cases hclaim
        obtain ⟨d, hduty, hd⟩ := h.owner index claim hbefore
        obtain ⟨d', hduty', hpeer⟩ := hnamed hduty
        exact ⟨d', hduty', hpeer ▸ howner.trans hd⟩
    | claimed number coins d hevent hfree hdeadline hduty howner =>
        rw [hdeadline, hfree, hevent] at hclaim
        cases hclaim
        obtain ⟨d', hduty', hpeer⟩ := hnamed hduty
        exact ⟨d', hduty', hpeer ▸ howner⟩
    | expired _ hdeadline _ | closedOut _ _ _ _ _ hdeadline _ | finished _ _ _ _ _ hdeadline =>
        rw [hdeadline] at hclaim
        cases hclaim

theorem accounted_of_starts {ownId : Identifier} {t : TorrentSource}
    {connectionOptions : ConnectionOptions} {policy : ReservationPolicy} {start : Session}
    (h : Starts ownId t connectionOptions policy start) : Accounted start .empty := by
  obtain ⟨hfits, _, hregister⟩ := begins_of_starts h
  have hreservations : start.reservations = .empty start.pieceCount :=
    congrArg Register.reservations hregister
  have howners : start.owners = .empty := congrArg Register.owners hregister
  refine ⟨hfits, howners ▸ List.nodup_nil, ⟨∅, ?_, fun index => Finmap.lookup_empty index⟩, nofun⟩
  rw [hreservations]
  exact Reservations.represents_empty _

/-! ### Why a reservation ends -/

/-- A reason of its own holder for which a reservation ends. -/
inductive OwnReason (notes : Notes) (now : Nanoseconds) (s : Session) (event : Event) (s' : Session)
    (index : Nat) (claim : Claim) (m : Member) : Prop
  | expired (hevent : event = .own .expire) (hdue : claim.deadline ≤ now)
  | closing (hevent : event = .own (.closeOut claim.number))
      (hended : m.connection.hasEnded = true)
  | owned (howned : s'.owned.contains index = true)
  /-- The piece was last asked from this peer when it was completed, and it is not in order. -/
  | failed (piece : AssembledPiece) (hevent : event = .own .finishPiece)
      (hverifying : s.verifying = some piece) (hpiece : piece.piece = index)
      (hfailed : ∀ storage, s.verdict piece ≠ .stored storage)
      (hprovider : notes.provider = some m.connection.peerId)

/-- A reason that has nothing to do with the holder of a reservation. -/
inductive ForeignReason (notes : Notes) (s : Session) (event : Event) (index : Nat) (claim : Claim)
    (m : Member) : Prop
  | namesake (number : Nat) (m' : Member) (hother : number ≠ claim.number)
      (hevent : event = .own (.closeOut number)) (hm' : s.members.get? number = some m')
      (hended : m'.connection.hasEnded = true) (hpeer : m'.connection.peerId = m.connection.peerId)
  /-- The piece is not in order, and it was not this peer that it was asked from when it was
  completed. -/
  | failed (piece : AssembledPiece) (hevent : event = .own .finishPiece)
      (hverifying : s.verifying = some piece) (hpiece : piece.piece = index)
      (hfailed : ∀ storage, s.verdict piece ≠ .stored storage)
      (hprovider : notes.provider ≠ some m.connection.peerId)

theorem contains_of_stored {s s' : Session} {piece : AssembledPiece} {storage : Storage}
    (hfits : s.Fits) (h : s.finishPiece? = some s') (hverifying : s.verifying = some piece)
    (hactive : s.cancelled = false) (hindex : piece.piece < s.pieceCount)
    (hverdict : s.verdict piece = .stored storage) : s'.owned.contains piece.piece = true := by
  unfold finishPiece? at h
  rw [hverifying] at h
  simp only [hverdict, hactive, Bool.false_eq_true, if_false] at h
  cases h
  show (markOwned _ piece).owned.contains piece.piece = true
  rw [markOwned]
  have hcount : piece.piece < s.owned.pieceCount := hfits.pieceCount_eq ▸ hindex
  have hmark : s.owned.mark piece.piece
      = .ok (!s.owned.contains piece.piece, s.owned.insert piece.piece) := if_pos hcount
  simp only [releasePiece, hmark]
  cases hbefore : s.owned.contains piece.piece with
  | true => exact hbefore
  | false =>
      have hinserted : (s.owned.insert piece.piece).contains piece.piece = true := by
        rw [Bitfield.contains_insert hfits.wellFormed hcount, decide_eq_true rfl, Bool.or_true]
      rw [Bool.not_false]
      simp only
      refine Eq.trans (congrArg (fun f : Bitfield => f.contains piece.piece) ?_) hinserted
      exact congrArg Holdings.owned (holdings_of_outline (outline_announce _ piece.piece))

/-- In every session that can be reached, a reservation that an event ends is over for a reason of
its own holder, unless the event closes out another connection of the holder's peer, or rejects a
piece that was completed while another peer was its owner. -/
theorem reservation_ends {ownId : Identifier} {t : TorrentSource}
    {connectionOptions : ConnectionOptions} {policy : ReservationPolicy} {start s s' : Session}
    {events : List (Nanoseconds × Event)} {now : Nanoseconds} {event : Event} {index : Nat}
    {claim : Claim} (hstart : Starts ownId t connectionOptions policy start)
    (hrun : run? events start = some s)
    (hclaim : (takeNotes events start .empty).claims index = some claim)
    (hstep : s.happen? now event = some s') (hgone : s'.reservations.isReserved index = false) :
    ∃ m, s.members.get? claim.number = some m
      ∧ (OwnReason (takeNotes events start .empty) now s event s' index claim m
        ∨ ForeignReason (takeNotes events start .empty) s event index claim m) := by
  have haccounted := takeNotes_invariant accounted_happen (accounted_of_starts hstart) hrun
  generalize takeNotes events start .empty = notes at hclaim haccounted ⊢
  obtain ⟨md, hmd, hclaims⟩ := haccounted.represents
  obtain ⟨md', hturnover⟩ := turnover_of_shift (shift_of_happen hstep) hmd haccounted.nodup
  obtain ⟨d, hduty, howner⟩ := haccounted.owner index claim hclaim
  obtain ⟨m, hm, rfl⟩ := member_of_duty hduty
  have hdeadline : md.lookup index = some claim.deadline := by
    rw [hclaims, hclaim]
    rfl
  refine ⟨m, hm, ?_⟩
  cases hturnover.fares index with
  | kept hkept _ =>
      have hreserved := hturnover.represents.isReserved_eq index
      rw [hkept, hdeadline] at hreserved
      cases hgone.symm.trans hreserved
  | claimed _ _ _ _ hfree _ _ _ =>
      rw [hfree] at hdeadline
      cases hdeadline
  | expired hevent _ hdue => exact Or.inl (.expired hevent (hdue _ hdeadline))
  | closedOut number d' hevent hduty' hended _ howner' =>
      obtain ⟨m', hm', rfl⟩ := member_of_duty hduty'
      by_cases hsame : number = claim.number
      · subst hsame
        cases hm.symm.trans hm'
        exact Or.inl (.closing hevent hended)
      · have hpeer := Option.some.inj (howner'.symm.trans howner)
        exact Or.inr (.namesake number m' hsame hevent hm' hended hpeer)
  | finished piece hevent hverifying hactive hpiece _ =>
      by_cases howned : s'.owned.contains index = true
      · exact Or.inl (.owned howned)
      · have hfailed : ∀ storage, s.verdict piece ≠ .stored storage := by
          intro storage hverdict
          subst hpiece hevent
          exact howned (contains_of_stored haccounted.fits hstep hverifying hactive
            (hmd.lt_of_mem (Finmap.mem_of_lookup_eq_some hdeadline)) hverdict)
        by_cases hprovider : notes.provider = some m.connection.peerId
        · exact Or.inl (.failed piece hevent hverifying hpiece hfailed hprovider)
        · exact Or.inr (.failed piece hevent hverifying hpiece hfailed hprovider)

/-- A peer whose connection was dropped during a pause comes back, and a piece is reserved for it
before its first connection has been closed out. -/
def comesBack : List (Nanoseconds × Event) :=
  let request : Event := .own (.request 1 [])
  let receive : Event := .own (.receive 1)
  ([joins 0 [], .pause, .dropAllPeers, .resume, .connect 1
      ⟨(Pipe.make 4096).append (([.bitfield [0xc0], .unchoke] : List Message).flatMap Message.encode),
        .make 4096⟩
      ⟨.v4 [127, 0, 0, 1], 2⟩ (.plain .zero ⟨List.replicate 20 1, List.length_replicate⟩)
      (.forMessages 4096),
    request, request, request, request, receive, receive, receive, receive, request, request,
    request, request, .own (.stop 0)] : List Event).map fun event => (0, event)

theorem run_comesBack : ∃ start s s' claim m,
    Starts .zero twoPieces {} {} start ∧ run? comesBack start = some s
    ∧ (takeNotes comesBack start .empty).claims 0 = some claim
    ∧ s.happen? 0 (.own (.closeOut 0)) = some s' ∧ s'.reservations.isReserved 0 = false
    ∧ s.members.get? claim.number = some m ∧ claim.number = 1
    ∧ m.connection.isRunning = true ∧ m.connection.cancelled = false
    ∧ s'.owned.contains 0 = false := by
  have hdone : (start? .zero twoPieces {} {}).any (fun start =>
      (run? comesBack start).any fun s =>
        ((takeNotes comesBack start .empty).claims 0).any fun claim =>
          (s.happen? 0 (.own (.closeOut 0))).any fun s' =>
            (s.members.get? claim.number).any fun m =>
            decide (s'.reservations.isReserved 0 = false ∧ claim.number = 1
              ∧ m.connection.isRunning = true ∧ m.connection.cancelled = false
              ∧ s'.owned.contains 0 = false)) = true := by
    decide +kernel
  obtain ⟨start, hstart, hdone⟩ := (Option.any_eq_true _ _).mp hdone
  obtain ⟨s, hrun, hdone⟩ := (Option.any_eq_true _ _).mp hdone
  obtain ⟨claim, hclaim, hdone⟩ := (Option.any_eq_true _ _).mp hdone
  obtain ⟨s', hstep, hdone⟩ := (Option.any_eq_true _ _).mp hdone
  obtain ⟨m, hm, htest⟩ := (Option.any_eq_true _ _).mp hdone
  obtain ⟨hgone, hnumber, hrunning, hlive, hmissing⟩ := of_decide_eq_true htest
  exact ⟨start, s, s', claim, m, starts_of_start? hstart, hrun, hclaim, hstep, hgone, hm, hnumber,
    hrunning, hlive, hmissing⟩

/-- The reservation of a connection that is at work is ended, and not for a reason of its own. -/
theorem ownReason_fails : ∃ start s s' claim m,
    Starts .zero twoPieces {} {} start ∧ run? comesBack start = some s
    ∧ (takeNotes comesBack start .empty).claims 0 = some claim
    ∧ s.happen? 0 (.own (.closeOut 0)) = some s' ∧ s'.reservations.isReserved 0 = false
    ∧ s.members.get? claim.number = some m ∧ m.connection.isRunning = true
    ∧ m.connection.cancelled = false
    ∧ ¬ OwnReason (takeNotes comesBack start .empty) 0 s (.own (.closeOut 0)) s' 0 claim m := by
  obtain ⟨start, s, s', claim, m, hstart, hrun, hclaim, hstep, hgone, hm, hnumber, hrunning, hlive,
    hmissing⟩ := run_comesBack
  refine ⟨start, s, s', claim, m, hstart, hrun, hclaim, hstep, hgone, hm, hrunning, hlive, ?_⟩
  rintro (⟨⟨⟩, _⟩ | ⟨hevent, _⟩ | ⟨howned⟩ | ⟨_, ⟨⟩, _⟩)
  · rw [hnumber] at hevent
    cases hevent
  · rw [hmissing] at howned
    cases howned

/-- It is the old connection of the same peer that ends it. -/
theorem reservation_ends_comesBack : ∃ start s s' claim m,
    Starts .zero twoPieces {} {} start ∧ run? comesBack start = some s
    ∧ (takeNotes comesBack start .empty).claims 0 = some claim
    ∧ s.happen? 0 (.own (.closeOut 0)) = some s' ∧ s'.reservations.isReserved 0 = false
    ∧ s.members.get? claim.number = some m
    ∧ (OwnReason (takeNotes comesBack start .empty) 0 s (.own (.closeOut 0)) s' 0 claim m
      ∨ ForeignReason (takeNotes comesBack start .empty) s (.own (.closeOut 0)) 0 claim m) := by
  obtain ⟨start, s, s', claim, m, hstart, hrun, hclaim, hstep, hgone, _⟩ := run_comesBack
  obtain ⟨m, hm, hreason⟩ := reservation_ends hstart hrun hclaim hstep hgone
  exact ⟨start, s, s', claim, m, hstart, hrun, hclaim, hstep, hgone, hm, hreason⟩

end Session

end TorrentCore
