import TorrentCore.Proofs.Session.Learning
import TorrentCore.Proofs.Session.Parting
import TorrentCore.Proofs.Session.Rest
import TorrentCore.Proofs.Swarm.Dials

/-!
# Two sessions at the ends of one link

A `Meeting` is a pair of sessions that serve the same torrent and are connected to each other. Each
goes on by itself, with whatever other peers it has, and what the network carries away from one end
of their link it brings to the other, in order and at any time.

When both are complete, each requester takes its leave on its own, and it takes its leave once. If
it does not yet know then that the peer has everything, it leaves the connection to the peer. So if
both leave early, the connection stays for good.
-/

namespace TorrentCore

open Session

abbrev Meeting := Side → Station

namespace Meeting

/-- What has come to each station is the first part of what was carried away from the other. -/
def Joined (p : Meeting) : Prop := ∀ side, (p side).come <+: (p side.other).carried

instance {P : Side → Prop} [DecidablePred P] : Decidable (∀ side, P side) :=
  decidable_of_iff _ Side.forall_iff.symm

instance (p : Meeting) : Decidable p.Joined := inferInstanceAs (Decidable (∀ _, _))

/-- The meeting after an event on one side, where the stations follow the connections of these
numbers. -/
def step? (number : Side → Nat) (side : Side) (now : Nanoseconds) (event : Event) (p : Meeting) :
    Option Meeting :=
  ((p side).step? (number side) now event).bind fun st =>
    if Joined (Function.update p side st) then some (Function.update p side st) else none

def run? (number : Side → Nat) : List (Side × Nanoseconds × Event) → Meeting → Option Meeting
  | [], p => some p
  | (side, now, event) :: rest, p => (p.step? number side now event).bind (run? number rest)

def eventsOf (side : Side) (events : List (Side × Nanoseconds × Event)) :
    List (Nanoseconds × Event) :=
  (events.filter (·.1 = side)).map Prod.snd

def begin (start : Side → Session) : Meeting := fun side => .begin (start side)

variable {start : Side → Session} {number : Side → Nat} {p p' : Meeting} {side : Side}
  {now : Nanoseconds} {event : Event} {events past : List (Side × Nanoseconds × Event)}

theorem eventsOf_append_self (past : List (Side × Nanoseconds × Event)) (side : Side)
    (now : Nanoseconds) (event : Event) :
    eventsOf side (past ++ [(side, now, event)]) = eventsOf side past ++ [(now, event)] := by
  simp [eventsOf]

theorem eventsOf_append_other {side side' : Side} (hne : side ≠ side')
    (past : List (Side × Nanoseconds × Event)) (now : Nanoseconds) (event : Event) :
    eventsOf side' (past ++ [(side, now, event)]) = eventsOf side' past := by
  simp [eventsOf, hne]

theorem run?_append (events later : List (Side × Nanoseconds × Event)) (p : Meeting) :
    run? number (events ++ later) p = (run? number events p).bind (run? number later) := by
  induction events generalizing p with
  | nil => rfl
  | cons entry events ih =>
      obtain ⟨side, now, event⟩ := entry
      rw [List.cons_append, run?, run?, Option.bind_assoc]
      congr 1
      funext p'
      exact ih p'

theorem step?_eq_some (h : p.step? number side now event = some p') :
    ∃ st, (p side).step? (number side) now event = some st ∧ p' = Function.update p side st
      ∧ p'.Joined := by
  obtain ⟨st, hstep, hjoin⟩ := Option.bind_eq_some_iff.mp h
  split at hjoin
  · next hjoined =>
    cases hjoin
    exact ⟨st, hstep, rfl, hjoined⟩
  · cases hjoin

/-- Both stations follow runs of their sessions, and the link joins them. -/
structure Met (start : Side → Session) (number : Side → Nat)
    (past : List (Side × Nanoseconds × Event)) (p : Meeting) : Prop where
  run : ∀ side, Station.run? (number side) (eventsOf side past) (.begin (start side))
    = some (p side)
  joined : p.Joined

theorem met_begin : Met start number [] (begin start) :=
  ⟨fun _ => rfl, fun _ => List.nil_prefix⟩

theorem met_step (h : Met start number past p) (hstep : p.step? number side now event = some p') :
    Met start number (past ++ [(side, now, event)]) p' := by
  obtain ⟨st, hst, rfl, hjoined⟩ := step?_eq_some hstep
  refine ⟨fun side' => ?_, hjoined⟩
  by_cases hside : side' = side
  · subst hside
    rw [eventsOf_append_self, Station.run?_append, h.run, Function.update_self]
    simp only [Option.bind_some, Station.run?, hst]
  · rw [eventsOf_append_other (Ne.symm hside), Function.update_of_ne hside]
    exact h.run side'

theorem run_history {Q : List (Side × Nanoseconds × Event) → Meeting → Prop}
    (hstart : Q [] (begin start))
    (hstep : ∀ {past side now event p p'}, Met start number past p → Q past p →
      p.step? number side now event = some p' → Q (past ++ [(side, now, event)]) p')
    (hrun : run? number events (begin start) = some p) :
    Met start number events p ∧ Q events p := by
  induction events using List.reverseRecOn generalizing p with
  | nil =>
      cases hrun
      exact ⟨met_begin, hstart⟩
  | append_singleton past entry ih =>
      obtain ⟨side, now, event⟩ := entry
      rw [run?_append] at hrun
      obtain ⟨before, hbefore, hlast⟩ := Option.bind_eq_some_iff.mp hrun
      obtain ⟨after, hafter, hdone⟩ := Option.bind_eq_some_iff.mp hlast
      cases hdone
      obtain ⟨hmet, hq⟩ := ih hbefore
      exact ⟨met_step hmet hafter, hstep hmet hq hafter⟩

/-! ### What the two know of each other -/

/-- Two sessions for torrents of as many pieces, in whose frames every block fits. -/
structure Counterparts (start : Side → Session) : Prop where
  starts : ∀ side, ∃ ownId t connectionOptions policy,
    Starts ownId t connectionOptions policy (start side)
      ∧ t.options.maxRequest.toNat + 9 < 4294967296
  pieceCount_eq : ∀ side, (start side).pieceCount = (start side.other).pieceCount

variable {m : Member}

theorem Met.hearsAll (hstart : Counterparts start) (h : Met start number past p) (side : Side) :
    Station.HearsAll (start side) (number side) (eventsOf side past) (p side) := by
  obtain ⟨_, _, _, _, hstarts, _⟩ := hstart.starts side
  exact Station.hearsAll_run (h.run side) (Station.members_of_starts hstarts)

theorem Met.tellsAll (hstart : Counterparts start) (h : Met start number past p) (side : Side) :
    Station.TellsAll (start side) (number side) (eventsOf side past) (p side) := by
  obtain ⟨_, _, _, _, hstarts, hframes⟩ := hstart.starts side
  exact Station.tellsAll_run hstarts hframes (h.run side)

theorem Met.fits (hstart : Counterparts start) (h : Met start number past p) (side : Side) :
    (p side).session.Fits := by
  obtain ⟨_, _, _, _, hstarts, _⟩ := hstart.starts side
  exact fits_run (begins_of_starts hstarts).1 (Station.run_session (h.run side))

theorem Met.pieceCount_eq (hstart : Counterparts start) (h : Met start number past p)
    (side : Side) :
    (p side).session.owned.pieceCount = (start side).pieceCount := by
  obtain ⟨_, _, _, _, hstarts, _⟩ := hstart.starts side
  exact pieceCount_run (begins_of_starts hstarts).1 (Station.run_session (h.run side))

theorem Met.listens (hstart : Counterparts start) (h : Met start number past p)
    (hm : (p side).session.members.get? (number side) = some m) :
    ∃ heard, Station.Hears (start side) (eventsOf side past) (number side)
        (m.endpoint (p side).session.hub) heard (p side).come
      ∧ Endpoint.Listens (p side.other).session.owned.pieceCount
        (m.endpoint (p side).session.hub) heard (p side).come := by
  obtain ⟨heard, hheard⟩ := (h.hearsAll hstart side).hears m hm
  refine ⟨heard, hheard, ?_⟩
  rw [h.pieceCount_eq hstart, ← hstart.pieceCount_eq]
  exact hheard.listens

theorem Met.knowsAnnounced (hstart : Counterparts start) (h : Met start number past p)
    (side : Side) :
    KnowsAnnounced (start side) (eventsOf side past) (p side).session (number side) := by
  intro m hm index hindex hannounced
  obtain ⟨heard, hheard, hlistens⟩ := h.listens hstart hm
  obtain ⟨said, hcandid, himpression, htold⟩ :=
    (h.tellsAll hstart side.other).exists_said hlistens (h.joined side)
  have hlt : index < (p side.other).session.owned.pieceCount := by
    rw [h.pieceCount_eq hstart, ← hstart.pieceCount_eq, ← h.pieceCount_eq hstart,
      (h.fits hstart side).pieceCount_eq]
    exact hindex
  have hrecorded :=
    (hcandid.contains_iff hlt).mpr ((htold index).mp (hheard.announced index hannounced))
  rw [← himpression] at hrecorded
  exact hrecorded

theorem Met.knowsPieces (hstart : Counterparts start) (h : Met start number past p)
    (hm : (p side).session.members.get? (number side) = some m) {index : Nat}
    (hindex : m.connection.pieces.contains index = true) : m.connection.knowsPieces = true := by
  obtain ⟨heard, _, hlistens⟩ := h.listens hstart hm
  have hfits := Impression.fits_ofMessages (p side.other).session.owned.pieceCount heard
  rw [← hlistens.hears.2] at hfits
  exact hfits.knows index hindex

theorem Met.pieceCount_pos (hstart : Counterparts start) (h : Met start number past p)
    (side : Side) :
    0 < (p side).session.pieceCount := by
  obtain ⟨_, _, _, _, hstarts, _⟩ := hstart.starts side
  have hcount : (p side).session.pieceCount = _ :=
    (equipped_run hstarts (Station.run_session (h.run side))).geometry.toNat_pieceCount
  omega

/-- On both sides a live requester that has given up left early, or looked while its session was
paused. -/
theorem explains_run (hstart : Counterparts start)
    (hrun : run? number events (begin start) = some p) : Met start number events p
      ∧ ∀ side, Explains (start side) (eventsOf side events) (p side).session (number side) := by
  refine run_history (Q := fun past p => ∀ side,
    Explains (start side) (eventsOf side past) (p side).session (number side)) ?_ ?_ hrun
  · intro side m hm
    obtain ⟨_, _, _, _, hstarts, _⟩ := hstart.starts side
    rw [begin, Station.begin, Station.members_of_starts hstarts] at hm
    cases hm
  · intro past side now event p p' hmet hexplains hstep side'
    obtain ⟨st, hst, rfl, _⟩ := step?_eq_some hstep
    by_cases hside : side' = side
    · subst hside
      rw [eventsOf_append_self, Function.update_self]
      obtain ⟨_, _, _, _, hstarts, _⟩ := hstart.starts side'
      obtain ⟨s, hhappen, _, hs⟩ := Station.step?_eq_some hst
      have hpast := Station.run_session (hmet.run side')
      have hlists := (equipped_run hstarts (run?_append_singleton hpast hhappen)).listsLive
      rw [hs]
      exact explains_happen hpast (equipped_run hstarts hpast) hlists
        (explained_run hstarts hpast) (hmet.knowsAnnounced hstart side') (hexplains side') hhappen
    · rw [eventsOf_append_other (Ne.symm hside), Function.update_of_ne hside]
      exact hexplains side'

/-! ### Parting -/

/-- Both sides have everything, and nothing more is going to happen. -/
structure Standstill (p : Meeting) (number : Side → Nat) (m : Side → Member) : Prop where
  member_eq : ∀ side, (p side).session.members.get? (number side) = some (m side)
  live : ∀ side, (m side).isLive = true
  complete : ∀ side, (p side).session.owned.hasAll = true
  said : ∀ side, (m side).requester.isSending = false
  delivered : ∀ side, (p side).Delivered (number side) (m side)
    ((m side.other).endpoint (p side.other).session.hub) (p side.other).come
  rests : ∀ side, (p side).session.Rests

section Standstill

variable {m : Side → Member}

theorem Standstill.requester (h : p.Standstill number m) (side : Side) :
    (m side).requester = .retired
      ∨ ((m side).requester = .awaitingPieces ∧ (m side).connection.knowsPieces = false)
      ∨ ((m side).requester = .awaitingUnchoke ∧ (m side).connection.amChoked = true) :=
  (h.rests side).requester (h.member_eq side) (Bool.and_eq_true_iff.mp (h.live side)).1 (h.said side)

theorem Standstill.hasGreeted (h : p.Standstill number m) (side : Side) :
    (m side).requester.hasGreeted = true := by
  rcases h.requester side with hphase | ⟨hphase, _⟩ | ⟨hphase, _⟩ <;> simp [hphase,
    Requester.hasGreeted]

theorem Standstill.tells (h : p.Standstill number m) (hstart : Counterparts start)
    (hmet : Met start number past p) (side : Side) :
    ∃ accepted heard, Station.Tells (start side.other) (eventsOf side.other past) (number side.other)
        (p side.other) (m side.other) accepted
      ∧ Endpoint.Listens (p side.other).session.owned.pieceCount
        ((m side).endpoint (p side).session.hub) heard (p side).come
      ∧ (p side.other).Delivered (number side.other) (m side.other)
        ((m side).endpoint (p side).session.hub) (p side).come := by
  obtain ⟨accepted, htells⟩ := (hmet.tellsAll hstart side.other).tells _ (h.member_eq side.other)
  obtain ⟨heard, _, hlistens⟩ := hmet.listens hstart (h.member_eq side)
  have hdelivered := h.delivered side.other
  rw [Side.other_other] at hdelivered
  exact ⟨accepted, heard, htells, hlistens, hdelivered⟩

theorem Standstill.unchoked (h : p.Standstill number m) (hstart : Counterparts start)
    (hmet : Met start number past p) (side : Side) : (m side).connection.amChoked = false := by
  obtain ⟨accepted, heard, htells, hlistens, hdelivered⟩ := h.tells hstart hmet side
  have himpression := htells.impression_eq (h.live side.other) hlistens hdelivered
  have hunchoked := (htells.covers (h.live side.other) (h.hasGreeted side.other)).2
  have hheard : (Impression.ofMessages (p side.other).session.owned.pieceCount accepted).amChoked
      = false := Impression.amChoked_ofMessages htells.candid.unchoking hunchoked
  rw [← himpression] at hheard
  exact hheard

theorem Standstill.firstAnnounced (h : p.Standstill number m) (hstart : Counterparts start)
    (hmet : Met start number past p) (hunknown : (m side).connection.knowsPieces = false) :
    ∀ index < (start side.other).pieceCount,
      FirstAnnounced (start side.other) (eventsOf side.other past) (number side.other) index := by
  intro index hindex
  obtain ⟨accepted, heard, htells, hlistens, hdelivered⟩ := h.tells hstart hmet side
  rw [← hmet.pieceCount_eq hstart] at hindex
  have howned := (Bitfield.hasAll_iff (hmet.fits hstart side.other).wellFormed).mp
    (h.complete side.other) index hindex
  refine (htells.recorded (h.live side.other) (h.hasGreeted side.other) hlistens hdelivered
    howned).resolve_left fun hrecorded => ?_
  cases hunknown.symm.trans (hmet.knowsPieces hstart (h.member_eq side) hrecorded)

end Standstill

/-- When two sessions are complete and are not going to do anything more, and their connection still
stands, both requesters took their leave before the other side had announced all its pieces. Or one
of them looked for something to do while its session was paused. -/
theorem leftEarly_of_standstill {m : Side → Member} (hstart : Counterparts start)
    (hrun : run? number events (begin start) = some p) (h : p.Standstill number m) :
    (∀ side, LeftEarly (start side) (eventsOf side events) (number side))
      ∨ ∃ side, LookedWhilePaused (start side) (eventsOf side events) (number side) := by
  obtain ⟨hmet, hexplains⟩ := explains_run hstart hrun
  by_cases hlooked : ∃ side, LookedWhilePaused (start side) (eventsOf side events) (number side)
  · exact Or.inr hlooked
  refine Or.inl ?_
  have hretired : ∀ side, (m side).requester = .retired →
      LeftEarly (start side) (eventsOf side events) (number side) := fun side hphase =>
    (hexplains side _ (h.member_eq side) (h.live side) (congrArg Requester.final hphase)).resolve_right
      fun h => hlooked ⟨side, h⟩
  intro side
  rcases h.requester side with hphase | ⟨_, hunknown⟩ | ⟨_, hchoked⟩
  · exact hretired side hphase
  · -- The other side owes all its pieces to this one, so it knew of them when it took its leave.
    have hfirst := h.firstAnnounced hstart hmet hunknown
    exfalso
    rcases h.requester side.other with hphase | ⟨_, hunknown'⟩ | ⟨_, hchoked⟩
    · obtain ⟨_, _, _, _, hstarts, _⟩ := hstart.starts side.other
      exact not_leftEarly hstarts hfirst (hretired side.other hphase)
    · have hpos := hmet.pieceCount_pos hstart side.other
      have hannounced := (hfirst 0 ?_).announced
      · have hrecorded := hmet.knowsAnnounced hstart side.other _ (h.member_eq side.other) 0 hpos
          hannounced
        cases hunknown'.symm.trans (hmet.knowsPieces hstart (h.member_eq side.other) hrecorded)
      · rwa [← hmet.pieceCount_eq hstart, (hmet.fits hstart side.other).pieceCount_eq]
    · cases hchoked.symm.trans (h.unchoked hstart hmet side.other)
  · cases hchoked.symm.trans (h.unchoked hstart hmet side)

/-! ### Two halves -/

def half : Side → TorrentSource
  | .left => { twoPieces with options := { blockLength := 2 } }
  | .right => { twoPieces with options := { blockLength := 2 }, storage := ⟨[10, 11, 0]⟩ }

def identity (side : Side) : Identifier :=
  ⟨List.replicate 20 (if side = .left then 1 else 2), List.length_replicate⟩

/-- The two fetch from each other what they lack. Neither announces what it has fetched, since the
other has it. -/
def exchange : List (Side × Nanoseconds × Event) :=
  let both (event : Event) : List (Side × Nanoseconds × Event) :=
    [(.left, 0, event), (.right, 0, event)]
  let times (count : Nat) (action : Action) : List (Side × Nanoseconds × Event) :=
    (List.replicate count (both (.own action))).flatten
  let joins (side : Side) : Side × Nanoseconds × Event :=
    (side, 0, .connect 0 (.make 4096) ⟨.v4 [127, 0, 0, 1], 6881⟩ (.plain .zero (identity side.other))
      (.forMessages 4096))
  let brings (sent : List Message) : Event :=
    .farEnd 0 ⟨(Pipe.make 4096).append (sent.flatMap Message.encode), .make 4096⟩
  let carries (left right : List Message) : List (Side × Nanoseconds × Event) :=
    both (.farEnd 0 (.make 4096)) ++ [(.left, 0, brings right), (.right, 0, brings left)]
  [joins .left, joins .right]
    ++ times 4 (.request 0 []) ++ times 6 (.transmit 0) ++ times 1 (.receive 0)
    ++ carries [.bitfield [0x40], .unchoke] [.bitfield [0x80], .unchoke]
    ++ times 4 (.receive 0) ++ times 7 (.request 0 []) ++ times 6 (.transmit 0)
    ++ carries [.interested, .request ⟨0, 0, 2⟩] [.interested, .request ⟨1, 0, 1⟩]
    ++ times 5 (.receive 0) ++ times 1 .pickUpload ++ times 1 .readUpload
      ++ times 1 (.sendUpload false)
    ++ times 3 (.transmit 0) ++ carries [.piece 1 0 [12]] [.piece 0 0 [10, 11]]
    ++ times 4 (.receive 0) ++ times 1 .consume ++ times 1 .finishPiece ++ times 4 (.request 0 [])
    ++ times 3 (.transmit 0) ++ carries [.notInterested] [.notInterested]
    ++ times 3 (.receive 0) ++ times 5 .expire

/-- The next keep-alive of a connection is due before the other end gives it up. -/
def outlives (near far : Member) : Bool :=
  match near.connection.writer, far.connection.reader with
  | .waiting due, .reading deadline => decide (due < deadline)
  | _, _ => false

theorem run_exchange : ∃ start p m, Counterparts start
    ∧ (start .left).infoHash = (start .right).infoHash
    ∧ run? (fun _ => 0) exchange (begin start) = some p ∧ p.Standstill (fun _ => 0) m
    ∧ ∀ side, outlives (m side) (m side.other) = true := by
  have hdone : (start? (identity .left) (half .left) { maxMessage := 4096 } {}).any (fun left =>
      (start? (identity .right) (half .right) { maxMessage := 4096 } {}).any fun right =>
        (run? (fun _ => 0) exchange (begin fun | .left => left | .right => right)).any fun p =>
          ((p .left).session.members.get? 0).any fun a =>
            ((p .right).session.members.get? 0).any fun b =>
              let m : Side → Member := fun | .left => a | .right => b
              decide (left.pieceCount = right.pieceCount ∧ left.infoHash = right.infoHash
                ∧ (∀ side, outlives (m side) (m side.other) = true) ∧ ∀ side, (m side).isLive = true
                ∧ (p side).session.owned.hasAll = true ∧ (m side).requester.isSending = false
                ∧ (∀ a ∈ (p side).session.announcements, a.number ≠ 0)
                ∧ (m side).connection.queue.items = []
                ∧ ((m side).endpoint (p side).session.hub).unwritten = []
                ∧ (m side).link.outgoing.held = [] ∧ (p side.other).come = (p side).carried
                ∧ (m side.other).link.incoming.held = [] ∧ (m side.other).connection.buffer.pending
                  = []
                ∧ (p side).session.IsSilent)) = true := by
    decide +kernel
  obtain ⟨left, hleft, hdone⟩ := (Option.any_eq_true _ _).mp hdone
  obtain ⟨right, hright, hdone⟩ := (Option.any_eq_true _ _).mp hdone
  obtain ⟨p, hrun, hdone⟩ := (Option.any_eq_true _ _).mp hdone
  obtain ⟨a, ha, hdone⟩ := (Option.any_eq_true _ _).mp hdone
  obtain ⟨b, hb, htest⟩ := (Option.any_eq_true _ _).mp hdone
  obtain ⟨hcount, hsame, houtlives, htest⟩ := of_decide_eq_true htest
  refine ⟨_, p, fun | .left => a | .right => b, ⟨fun side => ?_, fun side => ?_⟩, hsame, hrun, ?_,
    houtlives⟩
  · cases side
    · exact ⟨_, _, _, _, starts_of_start? hleft, by decide⟩
    · exact ⟨_, _, _, _, starts_of_start? hright, by decide⟩
  · cases side
    · exact hcount
    · exact hcount.symm
  · refine ⟨fun side => ?_, fun side => (htest side).1, fun side => (htest side).2.1,
      fun side => (htest side).2.2.1, fun side => ?_, fun side => ?_⟩
    · cases side
      · exact ha
      · exact hb
    · obtain ⟨_, _, _, hannounced, hqueue, hunwritten, hheld, hcome, hread, hused, _⟩ := htest side
      exact ⟨hannounced, hqueue, hunwritten, hheld, hcome, hread, hused⟩
    · obtain ⟨_, _, _, _, _, _, _, _, _, _, hsilent⟩ := htest side
      exact hsilent.rests

/-- Both sides have everything, and neither of them ever ends the connection. -/
theorem parts_fails : ∃ start p m, Counterparts start
    ∧ (start .left).infoHash = (start .right).infoHash
    ∧ run? (fun _ => 0) exchange (begin start) = some p ∧ p.Standstill (fun _ => 0) m
    ∧ ∀ side, outlives (m side) (m side.other) = true := run_exchange

/-- It stands still for one of these reasons. -/
theorem leftEarly_of_standstill_exchange : ∃ start p m, Counterparts start
    ∧ run? (fun _ => 0) exchange (begin start) = some p ∧ p.Standstill (fun _ => 0) m
    ∧ ((∀ side, LeftEarly (start side) (eventsOf side exchange) 0)
      ∨ ∃ side, LookedWhilePaused (start side) (eventsOf side exchange) 0) := by
  obtain ⟨start, p, m, hstart, _, hrun, hstandstill, _⟩ := run_exchange
  exact ⟨start, p, m, hstart, hrun, hstandstill, leftEarly_of_standstill hstart hrun hstandstill⟩

end Meeting

end TorrentCore
