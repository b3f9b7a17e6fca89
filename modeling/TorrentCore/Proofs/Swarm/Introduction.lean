import TorrentCore.Proofs.Swarm.Talk

/-!
# The two sides of an exchange

One side dials the other for a torrent that the other one serves, and each side goes on to say more
right after its handshake, as soon as that is written. The network carries the bytes in pieces of
any size, and nobody is late. What is said after a handshake may be read together with the end of
it, or may still be on its way when both exchanges are over. `Stands` accounts for every byte: what
a side has not taken yet is in its buffer, on the link, or not said yet.
-/

namespace TorrentCore

/-- One side of a connection, and what it says after its handshake. -/
structure Speaker where
  exchange : Exchange
  link : Link
  more : Bytes

namespace Speaker

def hasGreeted (p : Speaker) : Bool :=
  match p.exchange.phase with
  | .writing _ => false
  | .reading => p.exchange.dialed.isSome
  | .over result => result.isOk

def step? (served : Identifier → Bool) (now : Nanoseconds) (p : Speaker) : Option Speaker :=
  if now < p.exchange.deadline.ceilMilliseconds then
    (p.exchange.step? served now p.link).map fun (x, l) => { p with exchange := x, link := l }
  else none

def speak? (count : Nat) (p : Speaker) : Option Speaker :=
  if p.hasGreeted && 0 < count && count ≤ p.more.length && count ≤ p.link.outgoing.room then
    some { p with
      link := { p.link with outgoing := p.link.outgoing.append (p.more.take count) }
      more := p.more.drop count }
  else none

def carry? (count : Nat) (near far : Speaker) : Option (Speaker × Speaker) :=
  if 0 < count && count ≤ near.link.outgoing.count then
    ((Passage.carry count).pass? near.link far.link).map fun (l, m) =>
      ({ near with link := l }, { far with link := m })
  else none

/-- What is in the buffer, and what is still to be read after that from another side. -/
def unread (p far : Speaker) : Bytes :=
  p.exchange.buffer.pending ++ p.link.incoming.held ++ (far.link.outgoing.held ++ far.more)

variable {served : Identifier → Bool} {now : Nanoseconds} {count : Nat}
  {p p' near far near' far' : Speaker}

theorem speak_cases (h : p.speak? count = some p') :
    p.hasGreeted = true ∧ ∃ outgoing more,
      p' = { p with link := { p.link with outgoing := outgoing }, more := more }
      ∧ outgoing.closed = p.link.outgoing.closed ∧ outgoing.capacity = p.link.outgoing.capacity
      ∧ outgoing.held ++ more = p.link.outgoing.held ++ p.more
      ∧ outgoing.count + more.length = p.link.outgoing.count + p.more.length
      ∧ more.length < p.more.length := by
  rw [speak?] at h
  split at h
  case isFalse => cases h
  next hallowed =>
  simp only [Bool.and_eq_true, decide_eq_true_eq] at hallowed
  obtain ⟨⟨⟨hgreeted, hpos⟩, hcount⟩, _⟩ := hallowed
  cases h
  refine ⟨hgreeted, _, _, rfl, rfl, rfl, ?_, ?_, ?_⟩
  · rw [Pipe.held_append, List.append_assoc, List.take_append_drop]
  · simp only [Pipe.append, List.length_take, List.length_drop]
    omega
  · rw [List.length_drop]
    omega

theorem carry_cases (h : carry? count near far = some (near', far')) :
    ∃ l m, near' = { near with link := l } ∧ far' = { far with link := m }
      ∧ near.link.Passes far.link l m
      ∧ l.outgoing.capacity = near.link.outgoing.capacity
      ∧ m.incoming.capacity = far.link.incoming.capacity
      ∧ l.outgoing.count + m.incoming.count = near.link.outgoing.count + far.link.incoming.count
      ∧ l.outgoing.count < near.link.outgoing.count := by
  rw [carry?] at h
  split at h
  case isFalse => cases h
  next hallowed =>
  simp only [Bool.and_eq_true, decide_eq_true_eq] at hallowed
  obtain ⟨⟨l, m⟩, hpass, hends⟩ := Option.map_eq_some_iff.mp h
  cases hends
  refine ⟨l, m, rfl, rfl, Link.passes_of_pass? hpass, ?_⟩
  rw [Passage.pass?] at hpass
  split at hpass <;> cases hpass
  refine ⟨rfl, rfl, ?_, ?_⟩
  · simp only [Pipe.append, Pipe.drop, List.length_take, Pipe.length_held]
    omega
  · simp only [Pipe.drop]
    omega

theorem step_cases (h : p.step? served now = some p') :
    now < p.exchange.deadline.ceilMilliseconds ∧ ∃ x l, p' = { p with exchange := x, link := l }
      ∧ p.exchange.step? served now p.link = some (x, l) := by
  rw [step?] at h
  split at h
  case isFalse => cases h
  next htime =>
  obtain ⟨⟨x, l⟩, hnext, rfl⟩ := Option.map_eq_some_iff.mp h
  exact ⟨htime, x, l, rfl, hnext⟩

theorem unread_carry (h : carry? count near far = some (near', far')) :
    near'.unread far' = near.unread far ∧ far'.unread near' = far.unread near := by
  obtain ⟨l, m, rfl, rfl, hpass, _⟩ := carry_cases h
  obtain ⟨bytes, hout, hin⟩ := hpass.moved
  constructor
  · rw [unread, unread, hpass.incoming_eq, hpass.outgoing_eq]
  · rw [unread, unread, hout, hin]
    simp only [List.append_assoc]

theorem unread_of_speak (h : p.speak? count = some p') (far : Speaker) :
    far.unread p' = far.unread p := by
  obtain ⟨_, outgoing, more, rfl, _, _, hsplit, _⟩ := speak_cases h
  rw [unread, unread, hsplit]

end Speaker

structure Introduction where
  dialer : Speaker
  acceptor : Speaker

namespace Introduction

inductive Move where
  | dialerSteps (now : Nanoseconds)
  | acceptorSteps (now : Nanoseconds)
  | dialerSpeaks (count : Nat)
  | acceptorSpeaks (count : Nat)
  | forth (count : Nat)
  | back (count : Nat)

def move? (served : Identifier → Bool) (d : Introduction) : Move → Option Introduction
  | .dialerSteps now => (d.dialer.step? served now).map fun p => { d with dialer := p }
  | .acceptorSteps now => (d.acceptor.step? served now).map fun p => { d with acceptor := p }
  | .dialerSpeaks count => (d.dialer.speak? count).map fun p => { d with dialer := p }
  | .acceptorSpeaks count => (d.acceptor.speak? count).map fun p => { d with acceptor := p }
  | .forth count => (d.dialer.carry? count d.acceptor).map fun (p, q) => ⟨p, q⟩
  | .back count => (d.acceptor.carry? count d.dialer).map fun (q, p) => ⟨p, q⟩

def run? (served : Identifier → Bool) : List Move → Introduction → Option Introduction
  | [], d => some d
  | move :: rest, d => (d.move? served move).bind (run? served rest)

def start (dialer acceptor : Exchange) (capacity : Nat) (x y : Bytes) : Introduction :=
  ⟨⟨dialer, .make capacity, x⟩, ⟨acceptor, .make capacity, y⟩⟩

open Exchange

/-- The side that dialed says its handshake, and perhaps more of `x` after it, and the other one has
not got all of the handshake yet. `rest` is what is still to be written of it. -/
structure Asking (infoHash dialerId acceptorId : Identifier) (x y : Bytes) (p q : Speaker)
    (rest : Bytes) : Prop where
  asks : p.exchange.Asks infoHash
  fresh : p.exchange.buffer.Fresh 0
  pending_eq : p.exchange.buffer.pending = []
  answers : q.exchange.Answers acceptorId
  said : (p.exchange.phase = .writing rest ∧ rest ≠ [] ∧ p.more = x)
    ∨ (p.exchange.phase = .reading ∧ rest = [] ∧ p.more.length ≤ x.length)
  unsaid_eq : q.more = y
  silent : q.link.outgoing.held = [] ∧ p.link.incoming.held = []
  heard : q.exchange.Awaits q.link (p.link.outgoing.held ++ (rest ++ p.more))
    ((Handshake.plain infoHash dialerId).encode ++ x)

/-- The other side says its answer, and perhaps more of `y` after it, and the side that dialed has
not got all of the answer yet. -/
structure Answering (infoHash dialerId acceptorId : Identifier) (x y : Bytes) (p q : Speaker)
    (rest : Bytes) : Prop where
  asks : p.exchange.Asks infoHash
  said : (q.exchange.phase = .writing rest ∧ q.exchange.theirs = some (.plain infoHash dialerId)
      ∧ rest ≠ [] ∧ q.more = y)
    ∨ (q.exchange.phase = .over (.ok (.plain infoHash dialerId)) ∧ rest = []
      ∧ q.more.length ≤ y.length)
  heard : p.exchange.Awaits p.link (q.link.outgoing.held ++ (rest ++ q.more))
    ((Handshake.plain infoHash acceptorId).encode ++ y)
  unread_eq : q.unread p = x

/-- Each side has got the handshake of the other one, and what is unread is what comes after
that. -/
structure Met (infoHash dialerId acceptorId : Identifier) (x y : Bytes) (p q : Speaker) : Prop where
  dialer_over : p.exchange.phase = .over (.ok (.plain infoHash acceptorId))
  acceptor_over : q.exchange.phase = .over (.ok (.plain infoHash dialerId))
  dialer_unread : p.unread q = y
  acceptor_unread : q.unread p = x

/-- How far two sides have come that say `x` and `y` after their handshakes. -/
inductive Stands (infoHash dialerId acceptorId : Identifier) (x y : Bytes) (d : Introduction) : Prop
  | asking (rest : Bytes) (h : Asking infoHash dialerId acceptorId x y d.dialer d.acceptor rest)
  | answering (rest : Bytes) (h : Answering infoHash dialerId acceptorId x y d.dialer d.acceptor rest)
  | met (h : Met infoHash dialerId acceptorId x y d.dialer d.acceptor)

variable {served : Identifier → Bool} {infoHash dialerId acceptorId : Identifier} {x y rest : Bytes}
  {now : Nanoseconds} {count : Nat} {d : Introduction} {p p' q q' : Speaker}

theorem asking_start (infoHash dialerId acceptorId : Identifier) (capacity : Nat)
    (timeout timeout' : Nanoseconds) (limit limit' : UInt32) (now now' : Nanoseconds)
    (x y : Bytes) :
    Asking infoHash dialerId acceptorId x y
      ⟨.outbound infoHash dialerId timeout limit now, .make capacity, x⟩
      ⟨.inbound acceptorId timeout' limit' now', .make capacity, y⟩
      (Handshake.plain infoHash dialerId).encode := by
  have hfresh (limit : UInt32) : (ReadBuffer.forMessages limit).Fresh 0 :=
    ReadBuffer.fresh_forMessages (UInt32.le_iff_toNat_le.mpr (Nat.zero_le _))
  exact ⟨⟨rfl, rfl⟩, hfresh _, rfl, ⟨rfl, rfl⟩, .inl ⟨rfl, List.cons_ne_nil _ _, rfl⟩,
    rfl, ⟨rfl, rfl⟩,
    ⟨rfl, hfresh _, Nat.zero_lt_succ 67, rfl⟩⟩

theorem ne_of_unsaid {bytes rest s : Bytes} (hrest : rest ≠ []) : bytes ++ (rest ++ s) ≠ s := by
  intro heq
  have hlength := congrArg List.length heq
  have hpos := List.length_pos_iff.mpr hrest
  simp only [List.length_append] at hlength
  omega

/-! ### While the side that dialed asks -/

namespace Asking

theorem writes (h : Asking infoHash dialerId acceptorId x y p q rest)
    (hwriting : p.exchange.phase = .writing rest) (hmore : p.more = x) (hopen : p.link.Calm)
    (hstep : p.step? served now = some p') :
    ∃ left, Asking infoHash dialerId acceptorId x y p' q left := by
  obtain ⟨a, l, more⟩ := p
  obtain ⟨htime, a', l', rfl, hnext⟩ := Speaker.step_cases hstep
  obtain ⟨left, outgoing, rfl, _, hbytes, hnext⟩ :=
    step?_writing hwriting hopen.outgoing_open htime hnext
  have htheirs : a.theirs = none := h.asks.theirs_eq
  have hheard := h.heard
  rw [← List.append_assoc, ← hbytes, List.append_assoc] at hheard
  refine ⟨left, ?_⟩
  rcases hnext with ⟨rfl, rfl⟩ | ⟨hleft, rfl⟩
  · have hwritten : a.written now
        = { a with phase := .reading, deadline := now + a.timeout } := by
      rw [written, htheirs]
    rw [hwritten]
    exact ⟨⟨h.asks.dialed_eq, h.asks.theirs_eq⟩, h.fresh, h.pending_eq, h.answers,
      .inr ⟨rfl, rfl, hmore ▸ Nat.le_refl _⟩, h.unsaid_eq, h.silent, hheard⟩
  · exact ⟨⟨h.asks.dialed_eq, h.asks.theirs_eq⟩, h.fresh, h.pending_eq, h.answers,
      .inl ⟨rfl, hleft, hmore⟩, h.unsaid_eq, h.silent, hheard⟩

/-- There is nothing to read before the other side has answered. -/
theorem dialerSteps (h : Asking infoHash dialerId acceptorId x y p q rest) (hopen : p.link.Calm)
    (hstep : p.step? served now = some p') :
    ∃ left, Asking infoHash dialerId acceptorId x y p' q left := by
  rcases h.said with ⟨hwriting, _, hmore⟩ | ⟨hreading, _⟩
  · exact h.writes hwriting hmore hopen hstep
  · obtain ⟨htime, _, _, _, hnext⟩ := Speaker.step_cases hstep
    rw [step?_idle hreading htime hopen.incoming_open h.silent.2] at hnext
    cases hnext

theorem received {b : Exchange} {l : Link} {buffer : ReadBuffer}
    (h : Asking infoHash dialerId acceptorId x y p ⟨b, l, y⟩ rest)
    (hserved : served infoHash = true)
    {incoming : Pipe}
    (hrest : buffer.pending ++ incoming.held ++ (p.link.outgoing.held ++ (rest ++ p.more)) = x) :
    Answering infoHash dialerId acceptorId x y p
      ⟨Exchange.received served { b with buffer := buffer } now (.plain infoHash dialerId),
        { l with incoming := incoming }, y⟩ (Handshake.plain infoHash acceptorId).encode := by
  obtain ⟨hreading, hrest⟩ : p.exchange.phase = .reading ∧
      buffer.pending ++ incoming.held ++ (p.link.outgoing.held ++ p.more) = x := by
    rcases h.said with ⟨_, hne, rfl⟩ | ⟨hreading, rfl, _⟩
    · rw [← List.append_assoc, ← List.append_assoc, List.append_assoc _ rest] at hrest
      exact absurd hrest (ne_of_unsaid hne)
    · exact ⟨hreading, hrest⟩
  have hanswer := @received_of_served served now { b with buffer := buffer }
    (.plain infoHash dialerId) h.answers.dialed_eq hserved
  rw [hanswer]
  have hownId : b.ownId = acceptorId := h.answers.ownId_eq
  refine ⟨h.asks, .inl ⟨by rw [hownId]; rfl, rfl, List.cons_ne_nil _ _, rfl⟩,
    ⟨hreading, h.fresh, ?_, ?_⟩, hrest⟩
  · rw [h.pending_eq]
    exact Nat.zero_lt_succ 67
  · have hnone : l.outgoing.held = [] := h.silent.1
    rw [h.pending_eq, h.silent.2, hnone]
    rfl

theorem acceptorSteps (h : Asking infoHash dialerId acceptorId x y p q rest)
    (hserved : served infoHash = true) (hopen : q.link.Calm)
    (hstep : q.step? served now = some q') :
    Asking infoHash dialerId acceptorId x y p q' rest
      ∨ ∃ rest', Answering infoHash dialerId acceptorId x y p q' rest' := by
  obtain ⟨b, l, more⟩ := q
  obtain rfl : more = y := h.unsaid_eq
  obtain ⟨htime, b', m', rfl, hnext⟩ := Speaker.step_cases hstep
  obtain ⟨buffer, incoming, rfl, _, hnext⟩ :=
    h.heard.step_of_open rfl htime hopen.incoming_open hnext
  rcases hnext with ⟨rfl, hawaits⟩ | ⟨rfl, hrest⟩
  · exact .inl ⟨h.asks, h.fresh, h.pending_eq, ⟨h.answers.dialed_eq, h.answers.ownId_eq⟩, h.said,
      rfl, h.silent, hawaits⟩
  · exact .inr ⟨_, h.received hserved hrest⟩

theorem dialerSpeaks (h : Asking infoHash dialerId acceptorId x y p q rest)
    (hstep : p.speak? count = some p') : Asking infoHash dialerId acceptorId x y p' q rest := by
  obtain ⟨hgreeted, outgoing, more', rfl, _, _, hsplit, _, hless⟩ := Speaker.speak_cases hstep
  rcases h.said with ⟨hwriting, _⟩ | ⟨hreading, rfl, hmore⟩
  · rw [Speaker.hasGreeted, hwriting] at hgreeted
    cases hgreeted
  · have hheard := h.heard
    rw [List.nil_append, ← hsplit] at hheard
    exact ⟨h.asks, h.fresh, h.pending_eq, h.answers,
      .inr ⟨hreading, rfl, Nat.le_trans (Nat.le_of_lt hless) hmore⟩, h.unsaid_eq, h.silent, hheard⟩

theorem not_hasGreeted (h : Asking infoHash dialerId acceptorId x y p q rest) :
    q.hasGreeted = false := by
  rw [Speaker.hasGreeted, h.heard.reading, h.answers.dialed_eq]
  rfl

theorem forth (h : Asking infoHash dialerId acceptorId x y p q rest)
    (hstep : p.carry? count q = some (p', q')) :
    Asking infoHash dialerId acceptorId x y p' q' rest := by
  obtain ⟨l', m', rfl, rfl, hpass, _⟩ := Speaker.carry_cases hstep
  refine ⟨h.asks, h.fresh, h.pending_eq, h.answers, h.said, h.unsaid_eq, ?_, hpass.awaits h.heard⟩
  rw [hpass.incoming_eq, hpass.outgoing_eq]
  exact h.silent

theorem back (h : Asking infoHash dialerId acceptorId x y p q rest)
    (hstep : q.carry? count p = some (q', p')) :
    Asking infoHash dialerId acceptorId x y p' q' rest := by
  obtain ⟨m', l', rfl, rfl, hpass, _⟩ := Speaker.carry_cases hstep
  obtain ⟨hleft, hsame⟩ := hpass.nothing_left h.silent.1
  refine ⟨h.asks, h.fresh, h.pending_eq, h.answers, h.said, h.unsaid_eq,
    ⟨hleft, hsame.trans h.silent.2⟩, ?_⟩
  rw [hpass.outgoing_eq]
  exact h.heard.of_incoming hpass.incoming_eq

end Asking

/-! ### While the other side answers -/

namespace Answering

/-- Who has got the answer is done, and so is the other side, which has written all of it. -/
theorem received {a : Exchange} {l : Link} {more : Bytes} {buffer : ReadBuffer} {incoming : Pipe}
    (h : Answering infoHash dialerId acceptorId x y ⟨a, l, more⟩ q rest)
    (hrest : buffer.pending ++ incoming.held ++ (q.link.outgoing.held ++ (rest ++ q.more)) = y) :
    Met infoHash dialerId acceptorId x y
      ⟨Exchange.received served { a with buffer := buffer } now (.plain infoHash acceptorId),
        { l with incoming := incoming }, more⟩ q := by
  rcases h.said with ⟨_, _, hne, rfl⟩ | ⟨hover, rfl, _⟩
  · rw [← List.append_assoc, ← List.append_assoc, List.append_assoc _ rest] at hrest
    exact absurd hrest (ne_of_unsaid hne)
  · have hdecided := @received_of_dialed served now { a with buffer := buffer }
      (.plain infoHash acceptorId) h.asks.dialed_eq
    rw [hdecided]
    exact ⟨rfl, hover, hrest, h.unread_eq⟩

theorem dialerSteps (h : Answering infoHash dialerId acceptorId x y p q rest) (hopen : p.link.Calm)
    (hstep : p.step? served now = some p') :
    Answering infoHash dialerId acceptorId x y p' q rest
      ∨ Met infoHash dialerId acceptorId x y p' q := by
  obtain ⟨htime, a', l', rfl, hnext⟩ := Speaker.step_cases hstep
  obtain ⟨buffer, incoming, rfl, _, hnext⟩ :=
    h.heard.step_of_open rfl htime hopen.incoming_open hnext
  rcases hnext with ⟨rfl, hawaits⟩ | ⟨rfl, hrest⟩
  · exact .inl ⟨⟨h.asks.dialed_eq, h.asks.theirs_eq⟩, h.said, hawaits, h.unread_eq⟩
  · exact .inr (h.received hrest)

theorem acceptorSteps (h : Answering infoHash dialerId acceptorId x y p q rest)
    (hopen : q.link.Calm) (hstep : q.step? served now = some q') :
    ∃ left, Answering infoHash dialerId acceptorId x y p q' left := by
  obtain ⟨htime, b', m', rfl, hnext⟩ := Speaker.step_cases hstep
  rcases h.said with ⟨hwriting, htheirs, _, hmore⟩ | ⟨hover, _⟩
  · obtain ⟨left, outgoing, rfl, _, hbytes, hnext⟩ :=
      step?_writing hwriting hopen.outgoing_open htime hnext
    have hheard := h.heard
    rw [← List.append_assoc, ← hbytes, List.append_assoc] at hheard
    refine ⟨left, ?_⟩
    rcases hnext with ⟨rfl, rfl⟩ | ⟨hleft, rfl⟩
    · rw [written, htheirs]
      exact ⟨h.asks, .inr ⟨rfl, rfl, hmore ▸ Nat.le_refl _⟩, hheard, h.unread_eq⟩
    · exact ⟨h.asks, .inl ⟨rfl, htheirs, hleft, hmore⟩, hheard, h.unread_eq⟩
  · rw [Exchange.step?, hover] at hnext
    cases hnext

theorem dialerSpeaks (h : Answering infoHash dialerId acceptorId x y p q rest)
    (hstep : p.speak? count = some p') : Answering infoHash dialerId acceptorId x y p' q rest := by
  have hunread := Speaker.unread_of_speak hstep q
  obtain ⟨_, _, _, rfl, _⟩ := Speaker.speak_cases hstep
  exact ⟨h.asks, h.said, h.heard.of_incoming rfl, hunread.trans h.unread_eq⟩

theorem acceptorSpeaks (h : Answering infoHash dialerId acceptorId x y p q rest)
    (hstep : q.speak? count = some q') : Answering infoHash dialerId acceptorId x y p q' rest := by
  obtain ⟨hgreeted, outgoing, rest', rfl, _, _, hsplit, _, hless⟩ := Speaker.speak_cases hstep
  rcases h.said with ⟨hwriting, _⟩ | ⟨hover, rfl, hmore⟩
  · rw [Speaker.hasGreeted, hwriting] at hgreeted
    cases hgreeted
  · have hheard := h.heard
    rw [List.nil_append, ← hsplit] at hheard
    exact ⟨h.asks, .inr ⟨hover, rfl, Nat.le_trans (Nat.le_of_lt hless) hmore⟩, hheard, h.unread_eq⟩

theorem forth (h : Answering infoHash dialerId acceptorId x y p q rest)
    (hstep : p.carry? count q = some (p', q')) :
    Answering infoHash dialerId acceptorId x y p' q' rest := by
  obtain ⟨_, hfar⟩ := Speaker.unread_carry hstep
  obtain ⟨l', m', rfl, rfl, hpass, _⟩ := Speaker.carry_cases hstep
  refine ⟨h.asks, h.said, ?_, hfar.trans h.unread_eq⟩
  rw [hpass.outgoing_eq]
  exact h.heard.of_incoming hpass.incoming_eq

theorem back (h : Answering infoHash dialerId acceptorId x y p q rest)
    (hstep : q.carry? count p = some (q', p')) :
    Answering infoHash dialerId acceptorId x y p' q' rest := by
  obtain ⟨hnear, _⟩ := Speaker.unread_carry hstep
  obtain ⟨m', l', rfl, rfl, hpass, _⟩ := Speaker.carry_cases hstep
  exact ⟨h.asks, h.said, hpass.awaits h.heard, hnear.trans h.unread_eq⟩

end Answering

/-! ### Moves -/

namespace Stands

theorem dialerSteps (h : Stands infoHash dialerId acceptorId x y d) (hopen : d.dialer.link.Calm)
    (hstep : d.dialer.step? served now = some p') :
    Stands infoHash dialerId acceptorId x y { d with dialer := p' } := by
  cases h with
  | asking rest h =>
      obtain ⟨left, h'⟩ := h.dialerSteps hopen hstep
      exact .asking left h'
  | answering rest h =>
      rcases h.dialerSteps hopen hstep with h' | h'
      · exact .answering rest h'
      · exact .met h'
  | met h =>
      obtain ⟨_, _, _, _, hnext⟩ := Speaker.step_cases hstep
      rw [Exchange.step?, h.dialer_over] at hnext
      cases hnext

theorem acceptorSteps (h : Stands infoHash dialerId acceptorId x y d)
    (hserved : served infoHash = true) (hopen : d.acceptor.link.Calm)
    (hstep : d.acceptor.step? served now = some q') :
    Stands infoHash dialerId acceptorId x y { d with acceptor := q' } := by
  cases h with
  | asking rest h =>
      rcases h.acceptorSteps hserved hopen hstep with h' | ⟨rest', h'⟩
      · exact .asking rest h'
      · exact .answering rest' h'
  | answering rest h =>
      obtain ⟨left, h'⟩ := h.acceptorSteps hopen hstep
      exact .answering left h'
  | met h =>
      obtain ⟨_, _, _, _, hnext⟩ := Speaker.step_cases hstep
      rw [Exchange.step?, h.acceptor_over] at hnext
      cases hnext

theorem dialerSpeaks (h : Stands infoHash dialerId acceptorId x y d)
    (hstep : d.dialer.speak? count = some p') :
    Stands infoHash dialerId acceptorId x y { d with dialer := p' } := by
  cases h with
  | asking rest h => exact .asking rest (h.dialerSpeaks hstep)
  | answering rest h => exact .answering rest (h.dialerSpeaks hstep)
  | met h =>
      have hunread := Speaker.unread_of_speak hstep d.acceptor
      obtain ⟨_, _, _, rfl, _⟩ := Speaker.speak_cases hstep
      exact .met ⟨h.dialer_over, h.acceptor_over, h.dialer_unread,
        hunread.trans h.acceptor_unread⟩

theorem acceptorSpeaks (h : Stands infoHash dialerId acceptorId x y d)
    (hstep : d.acceptor.speak? count = some q') :
    Stands infoHash dialerId acceptorId x y { d with acceptor := q' } := by
  cases h with
  | asking rest h => exact absurd (Speaker.speak_cases hstep).1 (by simp [h.not_hasGreeted])
  | answering rest h => exact .answering rest (h.acceptorSpeaks hstep)
  | met h =>
      have hunread := Speaker.unread_of_speak hstep d.dialer
      obtain ⟨_, _, _, rfl, _⟩ := Speaker.speak_cases hstep
      exact .met ⟨h.dialer_over, h.acceptor_over, hunread.trans h.dialer_unread,
        h.acceptor_unread⟩

theorem forth (h : Stands infoHash dialerId acceptorId x y d)
    (hstep : d.dialer.carry? count d.acceptor = some (p', q')) :
    Stands infoHash dialerId acceptorId x y ⟨p', q'⟩ := by
  cases h with
  | asking rest h => exact .asking rest (h.forth hstep)
  | answering rest h => exact .answering rest (h.forth hstep)
  | met h =>
      obtain ⟨hnear, hfar⟩ := Speaker.unread_carry hstep
      obtain ⟨_, _, rfl, rfl, _⟩ := Speaker.carry_cases hstep
      exact .met ⟨h.dialer_over, h.acceptor_over, hnear.trans h.dialer_unread,
        hfar.trans h.acceptor_unread⟩

theorem back (h : Stands infoHash dialerId acceptorId x y d)
    (hstep : d.acceptor.carry? count d.dialer = some (q', p')) :
    Stands infoHash dialerId acceptorId x y ⟨p', q'⟩ := by
  cases h with
  | asking rest h => exact .asking rest (h.back hstep)
  | answering rest h => exact .answering rest (h.back hstep)
  | met h =>
      obtain ⟨hnear, hfar⟩ := Speaker.unread_carry hstep
      obtain ⟨_, _, rfl, rfl, _⟩ := Speaker.carry_cases hstep
      exact .met ⟨h.dialer_over, h.acceptor_over, hfar.trans h.dialer_unread,
        hnear.trans h.acceptor_unread⟩

/-- How it ends for the side that dialed. -/
theorem dialer_ends (h : Stands infoHash dialerId acceptorId x y d)
    {result : Except HandshakeError Handshake} (hresult : d.dialer.exchange.result? = some result) :
    result = .ok (.plain infoHash acceptorId) ∧ d.dialer.unread d.acceptor = y := by
  cases h with
  | asking rest h =>
      rcases h.said with ⟨hwriting, _⟩ | ⟨hreading, _⟩
      · rw [Exchange.result?, hwriting] at hresult
        cases hresult
      · rw [Exchange.result?, hreading] at hresult
        cases hresult
  | answering rest h =>
      rw [h.heard.result?_eq] at hresult
      cases hresult
  | met h =>
      rw [Exchange.result?, h.dialer_over] at hresult
      cases hresult
      exact ⟨rfl, h.dialer_unread⟩

/-- How it ends for the side that was dialed. -/
theorem acceptor_ends (h : Stands infoHash dialerId acceptorId x y d)
    {result : Except HandshakeError Handshake}
    (hresult : d.acceptor.exchange.result? = some result) :
    result = .ok (.plain infoHash dialerId) ∧ d.acceptor.unread d.dialer = x := by
  cases h with
  | asking rest h =>
      rw [h.heard.result?_eq] at hresult
      cases hresult
  | answering rest h =>
      rcases h.said with ⟨hwriting, _⟩ | ⟨hover, _⟩
      · rw [Exchange.result?, hwriting] at hresult
        cases hresult
      · rw [Exchange.result?, hover] at hresult
        cases hresult
        exact ⟨rfl, h.unread_eq⟩
  | met h =>
      rw [Exchange.result?, h.acceptor_over] at hresult
      cases hresult
      exact ⟨rfl, h.acceptor_unread⟩

end Stands

end Introduction

end TorrentCore
