import TorrentCore.Proofs.Swarm.Filing

/-!
# Torrents are added as a whole or not at all

A call to add a torrent has two parts, and between them anything may happen. A call that fails
leaves the listed sessions as they are, and the session that it made is shut down for good. Nobody
but who removes a torrent or stops the swarm shuts a listed session down. Of those who add the same
torrent at the same time the first one whose session was checked well has it listed, and the others
are told that it is there already.
-/

namespace TorrentCore

namespace Catalog

/-- The session was shut down, and it will never be listed. -/
structure Discarded (c : Catalog) (number : Nat) : Prop where
  shut : ∃ infoHash, c.card number = some ⟨infoHash, true⟩
  settled : c.adding.get? number = none
  unlisted : ∀ infoHash, c.torrents.get? infoHash ≠ some number

variable {c c' : Catalog} {event : Swarm.Event} {infoHash : Identifier} {number : Nat}

theorem Orderly.lt_nextNumber (h : c.Orderly) {card : Card} (hcard : c.card number = some card) :
    number < c.nextNumber := by
  refine Nat.lt_of_not_le fun hle => ?_
  cases (h.numbered number hle).symm.trans hcard

theorem card_begin (h : c.Orderly) {card : Card} (hcard : c.card number = some card)
    (infoHash : Identifier) (check : Bool) : (c.begin infoHash check).card number = some card :=
  (Function.update_of_ne (Nat.ne_of_lt (h.lt_nextNumber hcard)) _ _).trans hcard

theorem card_shut_of_ne {n : Nat} (h : number ≠ n) : (c.shut [n]).card number = c.card number :=
  if_neg fun hmem => h (List.mem_singleton.mp hmem)

theorem card_shut_of_shut (h : c.card number = some ⟨infoHash, true⟩) (numbers : List Nat) :
    (c.shut numbers).card number = some ⟨infoHash, true⟩ := by
  show (if number ∈ numbers then (c.card number).map Card.shut else c.card number) = _
  rw [h]
  split <;> rfl

theorem settled_turn (hlt : number < c.nextNumber) (hsettled : c.adding.get? number = none)
    (hturn : c.Turn event c') : number < c'.nextNumber ∧ c'.adding.get? number = none := by
  cases hturn with
  | idle _ _ hidle =>
      obtain ⟨next, hle, rfl⟩ := hidle
      exact ⟨Nat.lt_of_lt_of_le hlt hle, hsettled⟩
  | begun t hnew =>
      have hother : number ≠ c.nextNumber := Nat.ne_of_lt hlt
      exact ⟨Nat.lt_succ_of_lt hlt, (Table.get?_insert_of_ne hother).trans hsettled⟩
  | listed | rejected =>
      refine ⟨hlt, (Table.get?_erase _ _ _).trans ?_⟩
      rw [hsettled, ite_self]
  | removed | stopped => exact ⟨hlt, hsettled⟩

theorem Discarded.turn (h : c.Discarded number) (horderly : c.Orderly) (hturn : c.Turn event c') :
    c'.Discarded number := by
  obtain ⟨infoHash, hcard⟩ := h.shut
  have hsettled := (settled_turn (horderly.lt_nextNumber hcard) h.settled hturn).2
  refine ⟨⟨infoHash, ?_⟩, hsettled, fun ih => ?_⟩
  · cases hturn with
    | idle _ _ hidle =>
        obtain ⟨next, -, rfl⟩ := hidle
        exact hcard
    | begun t hnew => exact card_begin horderly hcard _ _
    | listed => exact hcard
    | rejected | removed | stopped => exact card_shut_of_shut hcard _
  · cases hturn with
    | idle _ _ hidle =>
        obtain ⟨next, -, rfl⟩ := hidle
        exact h.unlisted ih
    | begun | rejected => exact h.unlisted ih
    | listed n check card hadding hcard hnew =>
        intro hget
        rw [Catalog.list, Table.get?_insert] at hget
        split at hget
        · cases hget
          cases h.settled.symm.trans hadding
        · exact h.unlisted ih hget
    | removed infoHash' n hlisted =>
        intro hget
        rw [Catalog.remove, Table.get?_erase] at hget
        split at hget
        · cases hget
        · exact h.unlisted ih hget
    | stopped =>
        intro hget
        cases hget

/-- A session that is listed stays so, and it is not shut down, unless the torrent is removed or the
swarm is stopped. -/
theorem listed_turn (h : c.Orderly) (hlisted : c.torrents.get? infoHash = some number)
    (hturn : c.Turn event c') (hremove : event ≠ .removeTorrent infoHash) (hstop : event ≠ .stop) :
    c'.torrents.get? infoHash = some number ∧ c'.card number = c.card number := by
  have hcard := h.listed infoHash number hlisted
  cases hturn with
  | idle _ _ hidle =>
      obtain ⟨next, -, rfl⟩ := hidle
      exact ⟨hlisted, rfl⟩
  | begun t hnew => exact ⟨hlisted, (card_begin h hcard _ _).trans hcard.symm⟩
  | listed n check card hadding hcard' hnew =>
      have hother : infoHash ≠ card.infoHash := by
        rintro rfl
        cases hnew.symm.trans hlisted
      exact ⟨(Table.get?_insert_of_ne hother).trans hlisted, rfl⟩
  | rejected n check hadding =>
      have hother : number ≠ n := by
        rintro rfl
        cases (h.apart infoHash number hlisted).symm.trans hadding
      exact ⟨hlisted, card_shut_of_ne hother⟩
  | removed infoHash' n hlisted' =>
      have hother : infoHash ≠ infoHash' := fun heq => hremove (heq ▸ rfl)
      have hother' : number ≠ n := by
        rintro rfl
        exact hother (h.listed_inj hlisted hlisted')
      exact ⟨(Table.get?_erase_of_ne hother).trans hlisted, card_shut_of_ne hother'⟩
  | stopped => exact absurd rfl hstop

/-- A torrent gets listed only at the end of an add. -/
theorem unlisted_turn (h : c.torrents.get? infoHash = none) (hturn : c.Turn event c')
    (hevent : ∀ n, event ≠ .finishAdd n) : c'.torrents.get? infoHash = none := by
  cases hturn with
  | idle _ _ hidle =>
      obtain ⟨next, -, rfl⟩ := hidle
      exact h
  | begun => exact h
  | listed n | rejected n => exact absurd rfl (hevent n)
  | removed infoHash' n hlisted =>
      refine (Table.get?_erase _ _ _).trans ?_
      rw [h, ite_self]
  | stopped => rfl

end Catalog

namespace Swarm

open Catalog

variable {w w' : Swarm} {now : Nanoseconds} {event : Event} {events : List (Nanoseconds × Event)}
  {infoHash : Identifier} {number : Nat} {answer : Except Error Unit}

/-! ### Calls -/

def Event.isCall : Event → Bool
  | .beginAdd _ | .finishAdd _ | .removeTorrent _ => true
  | _ => false

/-- What the caller is told: nothing as long as the call goes on. -/
def answer? (w : Swarm) : Event → Option (Except Error Unit)
  | .beginAdd t => match w.beginAdd t with
    | .ok _ => none
    | .error e => some (.error e)
  | .finishAdd number => if w.isAdding number then some (w.finishAdd number).1 else none
  | .removeTorrent infoHash => some ((w.removeTorrent infoHash).map fun _ => ())
  | _ => none

theorem ending_of_answer? (h : w.answer? (.finishAdd number) = some answer) :
    w.isAdding number = true ∧ w.Ending number answer (w.finishAdd number).2 := by
  obtain ⟨hadding, heq⟩ := Option.ite_none_right_eq_some.mp h
  cases heq
  exact ⟨hadding, ending_finishAdd hadding⟩

theorem beginAdd_ok {t : TorrentSource} {out : Nat × Swarm} (h : w.beginAdd t = .ok out) :
    w.torrents.get? t.infoHash = none ∧ out.2.torrents = w.torrents
      ∧ ∀ n, n ≠ w.nextNumber → out.2.sessions.get? n = w.sessions.get? n := by
  unfold beginAdd at h
  split at h
  · cases h
  next hnew =>
  split at h
  · cases h
  · cases h
    exact ⟨Option.not_isSome_iff_eq_none.mp hnew, rfl, fun n hn =>
      Table.get?_insert_of_ne hn⟩

theorem after_of_answer? {t : TorrentSource} {e : Error}
    (h : w.answer? (.beginAdd t) = some (.error e)) : w.after (w.beginAdd t) = w := by
  rw [answer?] at h
  split at h
  · cases h
  · next heq => rw [heq, after]

def SameListed (w w' : Swarm) : Prop :=
  w'.torrents = w.torrents ∧ ∀ infoHash, w'.session? infoHash = w.session? infoHash

theorem SameListed.refl (w : Swarm) : w.SameListed w := ⟨rfl, fun _ => rfl⟩

theorem sameListed_of_sessions (htorrents : w'.torrents = w.torrents)
    (hsessions : ∀ infoHash number, w.torrents.get? infoHash = some number →
      w'.sessions.get? number = w.sessions.get? number) : w.SameListed w' := by
  refine ⟨htorrents, fun infoHash => ?_⟩
  rw [session?, session?, htorrents]
  cases hlisted : w.torrents.get? infoHash with
  | none => rfl
  | some number => exact hsessions infoHash number hlisted

theorem sameListed_discard (horderly : w.catalog.Orderly) (hadding : w.isAdding number = true)
    (s : Session) : w.SameListed (w.discard number s) := by
  refine sameListed_of_sessions rfl fun infoHash n hlisted => ?_
  have hne : n ≠ number := by
    rintro rfl
    exact not_isAdding (horderly.apart infoHash n hlisted) hadding
  exact Table.get?_insert_of_ne hne

theorem sameListed_of_call (horderly : w.catalog.Orderly) (h : w.happen? now event = some w')
    (hcall : event.isCall = true) (hanswer : w.answer? event ≠ some (.ok ())) :
    w.SameListed w' := by
  cases event with
  | beginAdd t =>
      cases h
      cases hbegin : w.beginAdd t with
      | error e => exact .refl w
      | ok out =>
          obtain ⟨-, htorrents, hsessions⟩ := beginAdd_ok hbegin
          refine sameListed_of_sessions htorrents fun infoHash n hlisted => hsessions n ?_
          exact Nat.ne_of_lt (horderly.lt_nextNumber (horderly.listed infoHash n hlisted))
  | finishAdd number =>
      cases h
      cases hadding : w.isAdding number with
      | false =>
          rw [finishAdd_of_not_adding hadding]
          exact .refl w
      | true =>
          have hending := ending_finishAdd hadding
          rw [answer?, hadding, if_pos rfl] at hanswer
          generalize w.finishAdd number = out at hending hanswer
          obtain ⟨answer, w'⟩ := out
          cases hending with
          | listed => exact absurd rfl hanswer
          | outrun s => exact sameListed_discard horderly hadding s
          | failed s => exact sameListed_discard horderly hadding s
  | removeTorrent infoHash =>
      cases h
      cases hremove : w.removeTorrent infoHash with
      | error e => exact .refl w
      | ok out =>
          rw [answer?, hremove] at hanswer
          exact absurd rfl hanswer
  | _ => cases hcall

theorem discarded_of_ending {e : Error} (horderly : w.catalog.Orderly)
    (hadding : w.isAdding number = true) (h : w.Ending number (.error e) w') :
    w'.catalog.Discarded number := by
  have hdiscard : ∀ s, (w.discard number s).catalog.Discarded number := by
    intro s
    refine ⟨⟨s.infoHash, ?_⟩, Table.get?_erase_self, fun infoHash hlisted => ?_⟩
    · show ((w.sessions.insert number s.shutdown).get? number).map Session.card = _
      rw [Table.get?_insert_self]
      rfl
    · exact not_isAdding (horderly.apart infoHash number hlisted) hadding
  cases h with
  | outrun s => exact hdiscard s
  | failed s => exact hdiscard s

theorem discarded_run (horderly : w.catalog.Orderly) (h : w.catalog.Discarded number)
    (hrun : run? events w = some w') : w'.catalog.Discarded number :=
  (catalog_invariant (P := fun c => c.Orderly ∧ c.Discarded number)
    (fun h hturn => ⟨h.1.turn hturn, h.2.turn h.1 hturn⟩) ⟨horderly, h⟩ hrun).2

/-! ### Overlapping calls -/

/-- The end of an add of this torrent, unless the check failed: the number of the session, and what
the caller is told. -/
def ending? (w : Swarm) (infoHash : Identifier) : Event → Option (Nat × Except Error Unit)
  | .finishAdd number => (w.ready? number).bind fun s =>
    if s.infoHash = infoHash then some (number, (w.finishAdd number).1) else none
  | _ => none

def endings (infoHash : Identifier) :
    List (Nanoseconds × Event) → Swarm → List (Nat × Except Error Unit)
  | [], _ => []
  | (now, event) :: rest, w =>
    (w.ending? infoHash event).toList ++ ((w.happen? now event).map (endings infoHash rest)).getD []

/-- Of those who add a torrent the first one to come to the end has its session listed. -/
inductive FirstWins (infoHash : Identifier) : List (Nat × Except Error Unit) → Option Nat → Prop
  | nobody : FirstWins infoHash [] none
  | won (number : Nat) (others : List (Nat × Except Error Unit))
      (hothers : ∀ other ∈ others, other.2 = .error (.torrentAlreadyExists infoHash)) :
      FirstWins infoHash ((number, .ok ()) :: others) (some number)

theorem ending?_spec (h : w.ending? infoHash event = some (number, answer)) :
    event = .finishAdd number ∧ w.isAdding number = true
      ∧ (w.torrents.get? infoHash = none → answer = .ok ()
        ∧ (w.finishAdd number).2.torrents.get? infoHash = some number)
      ∧ (w.torrents.get? infoHash ≠ none → answer = .error (.torrentAlreadyExists infoHash)) := by
  cases event with
  | finishAdd n =>
      obtain ⟨s, hready, heq⟩ := Option.bind_eq_some_iff.mp h
      obtain ⟨rfl, hsame⟩ := Option.ite_none_right_eq_some.mp heq
      cases hsame
      have hadding := isAdding_of_ready hready
      have hending := ending_finishAdd hadding
      refine ⟨rfl, hadding, ?_⟩
      generalize w.finishAdd number = out at hending ⊢
      obtain ⟨answer, w'⟩ := out
      cases hending with
      | listed s' hready' _ hnew =>
          cases hready.symm.trans hready'
          exact ⟨fun _ => ⟨rfl, Table.get?_insert_self⟩, fun hold =>
            absurd hnew hold⟩
      | outrun s' hready' _ hold =>
          cases hready.symm.trans hready'
          exact ⟨fun hnew => absurd hnew hold, fun _ => rfl⟩
      | failed s' e hready' => cases hready.symm.trans hready'
  | _ => cases h

theorem unlisted_of_ending? (h : w.torrents.get? infoHash = none)
    (hending : w.ending? infoHash event = none) (hstep : w.happen? now event = some w') :
    w'.torrents.get? infoHash = none := by
  by_cases hfinish : ∃ n, event = .finishAdd n
  · obtain ⟨n, rfl⟩ := hfinish
    cases hstep
    cases hadding : w.isAdding n with
    | false =>
        rw [finishAdd_of_not_adding hadding]
        exact h
    | true =>
        have hend := ending_finishAdd hadding
        rw [ending?] at hending
        generalize w.finishAdd n = out at hend hending
        obtain ⟨answer, w'⟩ := out
        cases hend with
        | listed s hready _ hnew =>
            rw [hready, Option.bind_some] at hending
            have hother : infoHash ≠ s.infoHash := by
              rintro rfl
              rw [if_pos rfl] at hending
              cases hending
            exact (Table.get?_insert_of_ne hother).trans h
        | outrun | failed => exact h
  · exact unlisted_turn h (turn_of_happen hstep) fun n heq => hfinish ⟨n, heq⟩

theorem endings_cons {next : Swarm} (hnext : w.happen? now event = some next) :
    endings infoHash ((now, event) :: events) w
      = (w.ending? infoHash event).toList ++ endings infoHash events next := by
  rw [endings, hnext]
  rfl

def Lasting (infoHash : Identifier) (events : List (Nanoseconds × Event)) : Prop :=
  ∀ entry ∈ events, entry.2 ≠ .removeTorrent infoHash ∧ entry.2 ≠ .stop

/-- Once a session is listed, who adds the torrent comes too late. -/
theorem endings_of_listed (horderly : w.catalog.Orderly)
    (hlisted : w.torrents.get? infoHash = some number) (hlasting : Lasting infoHash events)
    (hrun : run? events w = some w') :
    (∀ other ∈ endings infoHash events w, other.2 = .error (.torrentAlreadyExists infoHash))
      ∧ w'.torrents.get? infoHash = some number := by
  induction events generalizing w with
  | nil =>
      cases hrun
      exact ⟨nofun, hlisted⟩
  | cons entry events ih =>
      obtain ⟨now, event⟩ := entry
      obtain ⟨next, hnext, hrest⟩ := Option.bind_eq_some_iff.mp hrun
      obtain ⟨⟨hremove, hstop⟩, hlater⟩ := List.forall_mem_cons.mp hlasting
      have hturn := turn_of_happen hnext
      have hstill := (listed_turn horderly hlisted hturn hremove hstop).1
      obtain ⟨hothers, hend⟩ := ih (horderly.turn hturn) hstill hlater hrest
      refine ⟨fun other hother => ?_, hend⟩
      rw [endings_cons hnext, List.mem_append] at hother
      rcases hother with hfirst | hother
      · have hold : w.torrents.get? infoHash ≠ none := hlisted ▸ Option.some_ne_none number
        exact (ending?_spec (Option.mem_toList.mp hfirst)).2.2.2 hold
      · exact hothers other hother

theorem firstWins_endings (horderly : w.catalog.Orderly) (hnew : w.torrents.get? infoHash = none)
    (hlasting : Lasting infoHash events) (hrun : run? events w = some w') :
    FirstWins infoHash (endings infoHash events w) (w'.torrents.get? infoHash) := by
  induction events generalizing w with
  | nil =>
      cases hrun
      exact hnew ▸ .nobody
  | cons entry events ih =>
      obtain ⟨now, event⟩ := entry
      obtain ⟨next, hnext, hrest⟩ := Option.bind_eq_some_iff.mp hrun
      have hlater := (List.forall_mem_cons.mp hlasting).2
      have hafter := horderly.turn (turn_of_happen hnext)
      rw [endings_cons hnext]
      cases hending : w.ending? infoHash event with
      | none => exact ih hafter (unlisted_of_ending? hnew hending hnext) hlater hrest
      | some ending =>
          obtain ⟨number, answer⟩ := ending
          obtain ⟨rfl, -, hwins, -⟩ := ending?_spec hending
          obtain ⟨rfl, hlisted⟩ := hwins hnew
          cases hnext
          obtain ⟨hothers, hend⟩ := endings_of_listed hafter hlisted hlater hrest
          rw [hend]
          exact .won number _ hothers

theorem settled_of_ending (h : w.Ending number answer w') :
    w'.nextNumber = w.nextNumber ∧ w'.adding.get? number = none := by
  cases h <;> exact ⟨rfl, Table.get?_erase_self⟩

theorem not_mem_endings (hlt : number < w.nextNumber) (hsettled : w.adding.get? number = none)
    (hrun : run? events w = some w') : number ∉ (endings infoHash events w).map Prod.fst := by
  induction events generalizing w with
  | nil => exact List.not_mem_nil
  | cons entry events ih =>
      obtain ⟨now, event⟩ := entry
      obtain ⟨next, hnext, hrest⟩ := Option.bind_eq_some_iff.mp hrun
      obtain ⟨hlt', hsettled'⟩ := settled_turn hlt hsettled (turn_of_happen hnext)
      rw [endings_cons hnext, List.map_append, List.mem_append]
      rintro (hfirst | hlater)
      · obtain ⟨⟨n, answer⟩, hending, rfl⟩ := List.mem_map.mp hfirst
        exact not_isAdding hsettled (ending?_spec (Option.mem_toList.mp hending)).2.1
      · exact ih hlt' hsettled' hrest hlater

theorem nodup_endings (horderly : w.catalog.Orderly) (hrun : run? events w = some w') :
    ((endings infoHash events w).map Prod.fst).Nodup := by
  induction events generalizing w with
  | nil => exact List.nodup_nil
  | cons entry events ih =>
      obtain ⟨now, event⟩ := entry
      obtain ⟨next, hnext, hrest⟩ := Option.bind_eq_some_iff.mp hrun
      have hlater := ih (horderly.turn (turn_of_happen hnext)) hrest
      rw [endings_cons hnext]
      cases hending : w.ending? infoHash event with
      | none => exact hlater
      | some ending =>
          obtain ⟨number, answer⟩ := ending
          obtain ⟨rfl, hadding, -⟩ := ending?_spec hending
          obtain ⟨check, hcheck⟩ := Option.isSome_iff_exists.mp (Bool.and_eq_true_iff.mp hadding).1
          obtain ⟨ih, hcard⟩ := horderly.pending number check hcheck
          have hlt := horderly.lt_nextNumber hcard
          obtain ⟨hsame, hsettled⟩ := settled_of_ending (ending_finishAdd hadding)
          cases hnext
          exact List.nodup_cons.mpr ⟨not_mem_endings (hsame ▸ hlt) hsettled hrest, hlater⟩

/-- After every run the catalog is in order, and no session is forgotten. A step of a call that adds
or removes a torrent changes nothing about the listed sessions as long as it does not end the call
with success; the session of an add that fails stays shut down and unlisted. A session that is
listed stays listed and is not shut down until its torrent is removed or the swarm stops. Of all who
add a torrent that is not listed, the first one whose session was checked well has it listed. -/
theorem adding_is_atomic {peerId : Identifier} {options : SwarmOptions} {start : Nanoseconds}
    (hrun : run? events (make peerId options start) = some w) :
    w.catalog.Orderly ∧ w.catalog.Accounted
      ∧ (∀ now event w', w.happen? now event = some w' →
        (event.isCall = true → w.answer? event ≠ some (.ok ()) → w.SameListed w')
          ∧ (∀ t e, event = .beginAdd t → w.answer? event = some (.error e) → w' = w)
          ∧ (∀ number e, event = .finishAdd number → w.answer? event = some (.error e) →
            ∀ later w'', run? later w' = some w'' → w''.catalog.Discarded number)
          ∧ ∀ infoHash number, w.torrents.get? infoHash = some number →
            event ≠ .removeTorrent infoHash → event ≠ .stop →
            w'.torrents.get? infoHash = some number
              ∧ w'.catalog.card number = w.catalog.card number)
      ∧ (∀ t out, w.beginAdd t = .ok out → w.torrents.get? t.infoHash = none)
      ∧ ∀ infoHash later w', w.torrents.get? infoHash = none → Lasting infoHash later →
        run? later w = some w' →
        FirstWins infoHash (endings infoHash later w) (w'.torrents.get? infoHash)
          ∧ ((endings infoHash later w).map Prod.fst).Nodup := by
  obtain ⟨horderly, haccounted⟩ := orderly_run hrun
  refine ⟨horderly, haccounted, fun now event w' hstep => ⟨?_, ?_, ?_, ?_⟩, fun t out hbegin =>
    (beginAdd_ok hbegin).1, fun infoHash later w' hnew hlasting hlater => ?_⟩
  · exact sameListed_of_call horderly hstep
  · rintro t e rfl hanswer
    cases hstep
    exact after_of_answer? hanswer
  · rintro number e rfl hanswer later w'' hlater
    cases hstep
    obtain ⟨hadding, hending⟩ := ending_of_answer? hanswer
    exact discarded_run (horderly.turn (turn_of_ending hadding hending))
      (discarded_of_ending horderly hadding hending) hlater
  · intro infoHash number hlisted hremove hstop
    exact listed_turn horderly hlisted (turn_of_happen hstep) hremove hstop
  · exact ⟨firstWins_endings horderly hnew hlasting hlater, nodup_endings horderly hlater⟩

/-- Three calls add the same torrent. The storage of the second is too short. -/
def threeBegin : List (Nanoseconds × Event) :=
  [(0, .beginAdd Session.twoPieces),
    (0, .beginAdd { Session.twoPieces with storage := ⟨[0]⟩ }),
    (0, .beginAdd { Session.twoPieces with initial := .nothing })]

/-- The second call fails, and the third ends before the first; a fourth comes too late. -/
def threeEnd : List (Nanoseconds × Event) :=
  [(0, .finishAdd 1), (0, .finishAdd 2), (0, .beginAdd Session.twoPieces), (0, .finishAdd 0)]

theorem adding_is_atomic_threeEnd : ∃ w w',
    run? threeBegin (make .zero {} 0) = some w ∧ w.torrents.get? .zero = none
      ∧ w.SameListed (w.finishAdd 1).2 ∧ run? threeEnd w = some w'
      ∧ endings .zero threeEnd w = [(2, .ok ()), (0, .error (.torrentAlreadyExists .zero))]
      ∧ w'.torrents.get? .zero = some 2 ∧ w'.catalog.Discarded 1 := by
  have hdone : (run? threeBegin (make .zero {} 0)).any (fun w =>
      decide (w.torrents.get? .zero = none)
      && (w.answer? (.finishAdd 1)).any (fun answer => !answer.isOk)
      && (run? threeEnd w).isSome
      && decide ((endings .zero threeEnd w).map Prod.fst = [2, 0])) = true := by
    decide +kernel
  obtain ⟨w, hrun, htest⟩ := (Option.any_eq_true _ _).mp hdone
  simp only [Bool.and_eq_true, decide_eq_true_eq, Option.isSome_iff_exists] at htest
  obtain ⟨⟨⟨hnew, hanswer⟩, w', hlater⟩, hnumbers⟩ := htest
  obtain ⟨answer, hanswer, hfailed⟩ := (Option.any_eq_true _ _).mp hanswer
  cases answer with
  | ok => cases hfailed
  | error e =>
  obtain ⟨-, -, hsteps, -, hoverlap⟩ := adding_is_atomic hrun
  obtain ⟨hsame, -, hdiscarded, -⟩ := hsteps 0 (.finishAdd 1) _ rfl
  have hlasting : Lasting .zero threeEnd := by simp [Lasting, threeEnd]
  have hwins := (hoverlap .zero threeEnd w' hnew hlasting hlater).1
  have hunfinished : w.answer? (.finishAdd 1) ≠ some (.ok ()) := by
    intro hok
    cases hanswer.symm.trans hok
  refine ⟨w, w', hrun, hnew, hsame rfl hunfinished, hlater, ?_⟩
  have hgone := hdiscarded 1 e rfl hanswer threeEnd.tail w' hlater
  generalize endings .zero threeEnd w = ends at hwins hnumbers
  generalize w'.torrents.get? .zero = listed at hwins
  cases hwins with
  | nobody => cases hnumbers
  | won number others hothers =>
      obtain ⟨rfl, hrest⟩ := List.cons_eq_cons.mp hnumbers
      obtain ⟨⟨number, answer⟩, rfl, rfl⟩ := List.map_eq_singleton_iff.mp hrest
      obtain rfl : answer = _ := hothers _ List.mem_cons_self
      exact ⟨rfl, rfl, hgone⟩

end Swarm

end TorrentCore
