import Mathlib.Logic.Function.Basic
import Mathlib.Logic.Relation
import TorrentCore.Proofs.Swarm.Stage

/-!
# The books of a swarm

The books of a swarm say which attempts and sessions there are under which numbers, and how many
slots are free. Whatever a swarm does, its books change by few strides: a session goes on, or is
new; an attempt begins, goes on, or comes to its end. What is said of all runs of a swarm is checked
against these strides.

A pass over the torrents is told apart from the rest. It is the only one who dials, and `Dials` says
what holds of a session and an address at that moment.
-/

namespace TorrentCore

def Attempt.isOpen (a : Attempt) : Bool :=
  match a.phase with
  | .over => false
  | _ => true

def Attempt.isPending (a : Attempt) : Bool :=
  match a.phase with
  | .dialing => true
  | .exchanging x => x.result?.isNone
  | .over => false

structure Books where
  peerId : Identifier
  options : SwarmOptions
  freeSlots : Nat
  nextNumber : Nat
  numbers : List Nat
  attempt : Nat → Option Attempt
  session : Nat → Option Session

namespace Books

def putSession (b : Books) (number : Nat) (s : Session) : Books :=
  { b with session := Function.update b.session number (some s) }

def putAttempt (b : Books) (number : Nat) (a : Attempt) : Books :=
  { b with attempt := Function.update b.attempt number (some a) }

@[simp] theorem putSession_putSession (b : Books) (number : Nat) (s s' : Session) :
    (b.putSession number s).putSession number s' = b.putSession number s' := by
  simp only [putSession, Function.update_idem]

@[simp] theorem putAttempt_putAttempt (b : Books) (number : Nat) (a a' : Attempt) :
    (b.putAttempt number a).putAttempt number a' = b.putAttempt number a' := by
  simp only [putAttempt, Function.update_idem]

theorem putSession_eq_self {b : Books} {number : Nat} {s : Session}
    (hs : b.session number = some s) :
    b.putSession number s = b := by
  rw [putSession, ← hs, Function.update_eq_self]

@[simp] theorem session_putSession (b : Books) (number n : Nat) (s : Session) :
    (b.putSession number s).session n = if n = number then some s else b.session n :=
  Function.update_apply _ _ _ _

@[simp] theorem attempt_putAttempt (b : Books) (number n : Nat) (a : Attempt) :
    (b.putAttempt number a).attempt n = if n = number then some a else b.attempt n :=
  Function.update_apply _ _ _ _

theorem session_of_putSession {b : Books} {number n : Nat} {s s' : Session}
    (h : (b.putSession number s).session n = some s') :
    (n = number ∧ s = s') ∨ (n ≠ number ∧ b.session n = some s') := by
  rw [session_putSession] at h
  split at h
  · next heq => exact Or.inl ⟨heq, Option.some.inj h⟩
  · next hne => exact Or.inr ⟨hne, h⟩

def found (b : Books) (s : Session) : Books :=
  { b.putSession b.nextNumber s with nextNumber := b.nextNumber + 1 }

theorem found_putSession (b : Books) (s s' : Session) :
    (b.found s).putSession b.nextNumber s' = b.found s' := by
  show Books.mk _ _ _ _ _ _ _ = Books.mk _ _ _ _ _ _ _
  simp only [found, putSession, Function.update_idem]

def enter (b : Books) (free : Nat) (a : Attempt) : Books :=
  { b.putAttempt b.nextNumber { a with holdsSlot := true } with
    freeSlots := free
    nextNumber := b.nextNumber + 1
    numbers := match b.attempt b.nextNumber with
      | none => b.numbers ++ [b.nextNumber]
      | some _ => b.numbers }

theorem attempt_enter (b : Books) (free n : Nat) (a : Attempt) :
    (b.enter free a).attempt n
      = if n = b.nextNumber then some { a with holdsSlot := true } else b.attempt n :=
  attempt_putAttempt b b.nextNumber n _

def finish (b : Books) (number : Nat) (a : Attempt) (link : Link) : Books :=
  { b.putAttempt number { a with phase := .over, link := link, holdsSlot := false } with
    freeSlots := if a.holdsSlot then b.freeSlots + 1 else b.freeSlots }

def settle (b : Books) (a : Attempt) : Books :=
  { b with session := fun n => if a.dialer = some n
      then (b.session n).map fun s => s.doneConnecting a.address else b.session n }

theorem session_of_settle {b : Books} {a : Attempt} {n : Nat} {s : Session}
    (h : (b.settle a).session n = some s) :
    (a.dialer = some n ∧ ∃ s₀, b.session n = some s₀ ∧ s = s₀.doneConnecting a.address)
      ∨ (a.dialer ≠ some n ∧ b.session n = some s) := by
  simp only [settle] at h
  split at h
  · next hdialer =>
    obtain ⟨s₀, hs₀, heq⟩ := Option.map_eq_some_iff.mp h
    exact Or.inl ⟨hdialer, s₀, hs₀, heq.symm⟩
  · next hother => exact Or.inr ⟨hother, h⟩

theorem session_settle {b : Books} {n : Nat} {s : Session} (hs : b.session n = some s)
    (a : Attempt) :
    ∃ connecting, (b.settle a).session n = some { s with connecting := connecting } := by
  rw [settle]
  simp only [hs]
  split
  · exact ⟨_, rfl⟩
  · exact ⟨s.connecting, rfl⟩

def close (b : Books) (number : Nat) (a : Attempt) (link : Link) : Books :=
  (b.finish number a link).settle a

theorem attempt_close (b : Books) (number n : Nat) (a : Attempt) (link : Link) :
    (b.close number a link).attempt n = if n = number then
      some { a with phase := .over, link := link, holdsSlot := false } else b.attempt n :=
  attempt_putAttempt b number n _

end Books

/-- An event of a session that is not the swarm's own bookkeeping of connections. -/
def Session.Event.isPlain : Session.Event → Bool
  | .connect _ _ _ _ _ | .startConnecting _ | .doneConnecting _ => false
  | _ => true

/-- What holds when a pass dials an address for a session. That the address is not being dialed
already is known if none was heard of twice. -/
structure Session.MayDial (s : Session) (bound : Nat) (a : Address) : Prop where
  unpaused : s.paused = false
  unfinished : s.isFinished = false
  discovered : a ∈ s.discovered
  unconnected : ∀ peerId number m, (peerId, number) ∈ s.peers.entries →
    s.members.get? number = some m → m.connection.address ≠ a
  idle : s.discovered.Nodup → a ∉ s.connecting
  room : s.peers.size + s.connecting.length < bound

namespace Books

def dialing (number : Nat) (address : Address) (giveUp : Option Nanoseconds) : Attempt :=
  ⟨address, some number, .make 0, .dialing, giveUp, false⟩

inductive Dials (b : Books) : Books → Prop
  | dial (number : Nat) (s : Session) (a : Address) (free : Nat) (giveUp : Option Nanoseconds)
      (hs : b.session number = some s) (hmay : s.MayDial b.options.maxPeersPerTorrent a)
      (hfree : b.freeSlots = free + 1) :
      Dials b ((b.enter free (dialing number a giveUp)).putSession number (s.startConnecting a))

inductive PassStride (b : Books) : Books → Prop
  | swept (number : Nat) (s : Session) (hs : b.session number = some s) (hactive : s.paused = false) :
      PassStride b (b.putSession number s.removeFinishedPeers)
  | dropped (number : Nat) (s : Session) (hs : b.session number = some s) (hpaused : s.paused = true) :
      PassStride b (b.putSession number s.dropAllPeers)
  | dialed (b' : Books) (hdials : b.Dials b') : PassStride b b'

inductive Course (b : Books) (number : Nat) (a : Attempt) : Books → Prop
  | goesOn (a' : Attempt) (haddress : a'.address = a.address) (hdialer : a'.dialer = a.dialer)
      (hholds : a'.holdsSlot = a.holdsSlot) (hpending : a'.isPending = true) :
      Course b number a (b.putAttempt number a')
  | abandoned (link : Link) : Course b number a (b.close number a link)
  | promoted (now : Nanoseconds) (taker : Nat) (s s' : Session) (link : Link) (h : Handshake)
      (buffer : ReadBuffer) (hs : b.session taker = some s)
      (hadd : s.addPeer now number link a.address h buffer = .ok s') :
      Course b number a ((b.putSession taker s').close number a link)

/-- Everything else that a swarm does. -/
inductive Stride (b : Books) : Books → Prop
  | session (now : Nanoseconds) (number : Nat) (s s' : Session) (event : Session.Event)
      (hs : b.session number = some s) (hplain : event.isPlain = true)
      (hstep : s.happen? now event = some s') : Stride b (b.putSession number s')
  | checked (number : Nat) (s : Session) (owned : Bitfield) (hs : b.session number = some s) :
      Stride b (b.putSession number { s with owned := owned })
  | founded (t : TorrentSource) (s : Session)
      (hmake : Session.make b.peerId t b.options.connection b.options.reservation = .ok s) :
      Stride b (b.found s)
  | accepted (a : Attempt) (free : Nat) (hdialer : a.dialer = none) (hpending : a.isPending = true)
      (hfree : b.freeSlots = free + 1) : Stride b (b.enter free a)
  | attended (number : Nat) (a : Attempt) (b' : Books) (ha : b.attempt number = some a)
      (hopen : a.isOpen = true) (hcourse : b.Course number a b') : Stride b b'
  | relinked (number : Nat) (a : Attempt) (link : Link) (ha : b.attempt number = some a) :
      Stride b (b.putAttempt number { a with link := link })

abbrev Reaches : Books → Books → Prop := Relation.ReflTransGen fun b b' => b.Stride b' ∨ b.Dials b'

theorem Reaches.invariant {P : Books → Prop} {b b' : Books} (h : b.Reaches b')
    (hstride : ∀ {b b'}, P b → b.Stride b' → P b') (hdials : ∀ {b b'}, P b → b.Dials b' → P b')
    (hb : P b) : P b' := by
  induction h with
  | refl => exact hb
  | tail _ hstep ih => exact hstep.elim (hstride ih) (hdials ih)

/-- What a pass does to a session besides dialing might be done at any time. -/
theorem PassStride.stride_or_dials {b b' : Books} (h : b.PassStride b') :
    b.Stride b' ∨ b.Dials b' := by
  cases h with
  | swept number s hs _ => exact Or.inl (.session 0 number s _ .removeFinishedPeers hs rfl rfl)
  | dropped number s hs _ => exact Or.inl (.session 0 number s _ .dropAllPeers hs rfl rfl)
  | dialed _ hdials => exact Or.inr hdials

/-! ### Numbers of sessions -/

def Numbered (b : Books) : Prop := ∀ n s, b.session n = some s → n < b.nextNumber

section Numbered

variable {b b' : Books} {n : Nat} {s : Session}

theorem Numbered.putSession (h : b.Numbered) (hs : b.session n = some s) (s' : Session) :
    (b.putSession n s').Numbered := by
  intro n' s₀ hget
  rcases session_of_putSession hget with ⟨rfl, _⟩ | ⟨_, hs₀⟩
  · exact h n' s hs
  · exact h n' s₀ hs₀

theorem Numbered.found (h : b.Numbered) (s : Session) : (b.found s).Numbered := by
  intro n s₀ hget
  have hput : (b.putSession b.nextNumber s).session n = some s₀ := hget
  rcases session_of_putSession hput with ⟨rfl, _⟩ | ⟨_, hs₀⟩
  · exact Nat.lt_succ_self _
  · exact Nat.lt_succ_of_lt (h n s₀ hs₀)

theorem Numbered.enter (h : b.Numbered) (free : Nat) (a : Attempt) : (b.enter free a).Numbered :=
  fun n s hs => Nat.lt_succ_of_lt (h n s hs)

theorem Numbered.settle (h : b.Numbered) (a : Attempt) : (b.settle a).Numbered := by
  intro n s hget
  rcases session_of_settle hget with ⟨_, s₀, hs₀, _⟩ | ⟨_, hs⟩
  · exact h n s₀ hs₀
  · exact h n s hs

theorem Numbered.stride (h : b.Numbered) (hstride : b.Stride b') : b'.Numbered := by
  cases hstride with
  | session now n s s' event hs hplain hstep => exact h.putSession hs s'
  | checked n s owned hs => exact h.putSession hs _
  | founded t s hmake => exact h.found s
  | accepted a free hdialer hpending hfree => exact h.enter free a
  | attended k a b' ha hopen hcourse =>
      cases hcourse with
      | goesOn a' haddress hdialer hholds hpending => exact h
      | abandoned link =>
          have hfinished : (b.finish k a link).Numbered := h
          exact hfinished.settle a
      | promoted now taker s s' link hand buffer hs hadd =>
          have hfinished : ((b.putSession taker s').finish k a link).Numbered := h.putSession hs s'
          exact hfinished.settle a
  | relinked k a link ha => exact h

theorem Numbered.dials (h : b.Numbered) (hdials : b.Dials b') : b'.Numbered := by
  cases hdials with
  | dial n s a free giveUp hs hmay hfree => exact (h.enter free _).putSession hs _

end Numbered

end Books

namespace Swarm

open Books Relation

def books (w : Swarm) : Books :=
  ⟨w.peerId, w.options, w.freeSlots, w.nextNumber, w.attempts.keys, w.attempts.get?, w.sessions.get?⟩

variable {w w' : Swarm} {now : Nanoseconds} {number : Nat}

/-! ### Entries -/

theorem books_insertSession (w : Swarm) (number : Nat) (s : Session) :
    books { w with sessions := w.sessions.insert number s } = w.books.putSession number s := by
  simp only [books, putSession, Books.mk.injEq, true_and]
  funext n
  rw [Table.get?_insert, Function.update_apply]

theorem books_modifySession (w : Swarm) (number : Nat) (f : Session → Session) :
    (w.modifySession number f).books
      = { w.books with session := fun n => if n = number then (w.sessions.get? number).map f
          else w.sessions.get? n } := by
  simp only [books, modifySession, Books.mk.injEq, true_and]
  funext n
  rw [Table.get?_modify]

theorem books_modifySession_some {s : Session} (hs : w.sessions.get? number = some s)
    (f : Session → Session) :
    (w.modifySession number f).books = w.books.putSession number (f s) := by
  rw [books_modifySession, putSession, Books.mk.injEq]
  refine ⟨rfl, rfl, rfl, rfl, rfl, rfl, ?_⟩
  funext n
  rw [Function.update_apply, hs]
  rfl

theorem books_modifySession_none (hs : w.sessions.get? number = none) (f : Session → Session) :
    (w.modifySession number f).books = w.books := by
  rw [books_modifySession]
  simp only [books, Books.mk.injEq, true_and]
  funext n
  split
  · next heq => rw [heq, hs, Option.map_none]
  · rfl

theorem books_modifyAttempt {a : Attempt} (ha : w.attempts.get? number = some a)
    (f : Attempt → Attempt) :
    (w.modifyAttempt number f).books = w.books.putAttempt number (f a) := by
  simp only [books, modifyAttempt, putAttempt, Table.keys_modify, Books.mk.injEq,
    true_and, and_true]
  funext n
  rw [Table.get?_modify, Function.update_apply, ha]
  rfl

theorem books_modifyAttempt_none (ha : w.attempts.get? number = none) (f : Attempt → Attempt) :
    (w.modifyAttempt number f).books = w.books := by
  simp only [books, modifyAttempt, Table.keys_modify, Books.mk.injEq, true_and, and_true]
  funext n
  rw [Table.get?_modify]
  split
  · next heq => rw [heq, ha, Option.map_none]
  · rfl

theorem books_claimSlot {a : Attempt} (h : w.claimSlot? a = some w') :
    ∃ free, w.freeSlots = free + 1 ∧ w'.books = w.books.enter free a := by
  unfold claimSlot? at h
  split at h
  · cases h
  next free hfree =>
  cases h
  refine ⟨free, hfree, ?_⟩
  simp only [books, enter, putAttempt, Books.mk.injEq, true_and, and_true]
  constructor
  · split
    · next hnew => exact Table.keys_insert hnew _
    · next hold => exact Table.keys_insert_of_mem (hold ▸ Option.some_ne_none _) _
  · funext n
    rw [Table.get?_insert, Function.update_apply]

theorem books_doneConnecting (w : Swarm) (a : Attempt) :
    (w.doneConnecting a).books = w.books.settle a := by
  unfold doneConnecting
  split
  · next dialer hdialer =>
    rw [books_modifySession, settle, Books.mk.injEq]
    refine ⟨rfl, rfl, rfl, rfl, rfl, rfl, ?_⟩
    funext n
    by_cases heq : n = dialer
    · rw [if_pos heq, heq, if_pos hdialer]
      rfl
    · rw [if_neg heq, hdialer, if_neg fun h => heq (Option.some.inj h).symm]
      rfl
  · next hnone =>
    rw [settle, hnone]
    rfl

/-- However an attempt ends, its slot is given back if it holds one. -/
theorem books_finish {a : Attempt} (ha : w.attempts.get? number = some a) {f : Attempt → Attempt}
    {link : Link} (hf : ∀ holds, f { a with holdsSlot := holds }
      = { a with phase := .over, link := link, holdsSlot := holds }) :
    ((w.releaseSlot number a).modifyAttempt number f).books = w.books.finish number a link := by
  unfold releaseSlot finish
  split
  · simp only [books, modifyAttempt, putAttempt, Table.keys_modify, Books.mk.injEq,
      true_and, and_true]
    funext n
    rw [Table.modify_modify, Table.get?_modify, Function.update_apply, ha, Option.map_some,
      Function.comp_apply, hf]
  · next hfree =>
    rw [Bool.not_eq_true] at hfree
    have hsame := hf a.holdsSlot
    rw [books_modifyAttempt ha, hsame, hfree]
    rfl

/-! ### Attempts -/

theorem books_abandon {a : Attempt} (ha : w.attempts.get? number = some a) :
    (w.abandon number a).books = w.books.close number a a.link.hangUp := by
  have hfinished : ((w.releaseSlot number a).modifyAttempt number fun a =>
      { a with phase := .over, link := a.link.hangUp }).books = w.books.finish number a a.link.hangUp :=
    books_finish ha fun _ => rfl
  rw [abandon, books_doneConnecting, hfinished, close]

theorem session_of_taker? {a : Attempt} {h : Handshake} {taker : Nat} {s : Session}
    (htaker : w.taker? a h = some (taker, s)) : w.sessions.get? taker = some s := by
  unfold taker? at htaker
  split at htaker
  · split at htaker
    · obtain ⟨s', hs', heq⟩ := Option.map_eq_some_iff.mp htaker
      cases heq
      exact hs'
    · cases htaker
  · split at htaker
    · next hs' =>
      split at htaker <;> cases htaker
      exact hs'
    · cases htaker

theorem course_promote {a : Attempt} (ha : w.attempts.get? number = some a) (x : Exchange)
    (h : Handshake) : w.books.Course number a (w.promote now number a x h).books := by
  unfold promote
  split
  · rw [books_abandon ha]
    exact .abandoned _
  next taker s htaker =>
  split
  · rw [books_abandon ha]
    exact .abandoned _
  · next s' hadd =>
    simp only [books_doneConnecting, books_insertSession]
    rw [books_finish ha fun _ => rfl]
    exact .promoted now taker s s' a.link h x.buffer (session_of_taker? htaker) hadd

theorem course_of_put {b b' : Books} {a : Attempt} {phase : AttemptPhase} {link : Link}
    (h : (b.putAttempt number { a with phase := phase, link := link }).Course number
      { a with phase := phase, link := link } b') : b.Course number a b' := by
  have hclose : ∀ (b : Books) (link' : Link),
      (b.putAttempt number { a with phase := phase, link := link }).close number
        { a with phase := phase, link := link } link' = b.close number a link' := by
    intro b link'
    simp only [close, finish, putAttempt_putAttempt]
    rfl
  cases h with
  | goesOn a' haddress hdialer hholds hpending =>
      rw [putAttempt_putAttempt]
      exact .goesOn a' haddress hdialer hholds hpending
  | abandoned link' =>
      rw [hclose]
      exact .abandoned link'
  | promoted now taker s s' link' h buffer hs hadd =>
      have hpromoted := hclose (b.putSession taker s') link'
      exact hpromoted ▸ .promoted now taker s s' link' h buffer hs hadd

theorem isOpen_of_phase {a : Attempt} (h : a.phase ≠ .over) : a.isOpen = true := by
  unfold Attempt.isOpen
  split
  · next hover => exact absurd hover h
  · rfl

theorem isOpen_of_exchanging {a : Attempt} {x : Exchange} (h : a.phase = .exchanging x) :
    a.isOpen = true := by
  rw [Attempt.isOpen, h]

theorem isOpen_of_dialing {a : Attempt} (h : a.phase = .dialing) : a.isOpen = true := by
  rw [Attempt.isOpen, h]

theorem course_exchange (h : w.exchange? now number = some w') :
    ∃ a, w.attempts.get? number = some a ∧ a.isOpen = true ∧ w.books.Course number a w'.books := by
  unfold exchange? at h
  split at h
  · next a ha =>
    split at h
    · next x hphase =>
      split at h
      · cases h
      next x' link' _ =>
      cases h
      refine ⟨a, ha, isOpen_of_exchanging hphase, ?_⟩
      have hput := books_modifyAttempt ha fun _ => { a with phase := .exchanging x', link := link' }
      have hget := get?_modifyAttempt ha fun _ => { a with phase := .exchanging x', link := link' }
      split
      · next hnone =>
        rw [hput]
        exact .goesOn _ rfl rfl rfl (Option.isNone_iff_eq_none.mpr hnone)
      · apply course_of_put
        rw [← hput, books_abandon hget]
        exact .abandoned _
      · apply course_of_put
        rw [← hput]
        exact course_promote hget _ _
    · cases h
  · cases h

theorem course_answerDial {link : Option Link} (h : w.answerDial? now number link = some w') :
    ∃ a, w.attempts.get? number = some a ∧ a.isOpen = true ∧ w.books.Course number a w'.books := by
  unfold answerDial? at h
  split at h
  · next a ha =>
    split at h
    · next l s hphase hdialer =>
      cases h
      refine ⟨a, ha, isOpen_of_dialing hphase, ?_⟩
      rw [books_modifyAttempt ha]
      exact .goesOn _ rfl rfl rfl rfl
    · next hphase _ =>
      cases h
      refine ⟨a, ha, isOpen_of_dialing hphase, ?_⟩
      rw [books_abandon ha]
      exact .abandoned _
    · cases h
  · cases h

theorem course_giveUp (h : w.giveUp? now number = some w') :
    ∃ a, w.attempts.get? number = some a ∧ a.isOpen = true ∧ w.books.Course number a w'.books := by
  unfold giveUp? at h
  split at h
  · next a ha =>
    split at h
    · cases h
    · next hphase =>
      obtain ⟨_, heq⟩ := Option.ite_none_right_eq_some.mp h
      cases heq
      refine ⟨a, ha, isOpen_of_phase hphase, ?_⟩
      rw [books_abandon ha]
      exact .abandoned _
  · cases h

theorem stride_accept {link : Link} {address : Address} (h : w.accept now link address = some w') :
    w.books.Stride w'.books := by
  obtain ⟨free, hfree, hbooks⟩ := books_claimSlot h
  rw [hbooks]
  exact .accepted _ free rfl rfl hfree

end Swarm

end TorrentCore
