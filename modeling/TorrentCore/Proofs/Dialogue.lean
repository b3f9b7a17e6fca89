import TorrentCore.Proofs.Exchange

/-!
# One side of an exchange, over any stream

Nothing is assumed of the other side or of the network: between two steps of an exchange its link
may become any other, and the exchange may be called off at any time. What the exchange has read and
what it has written are kept beside it. The side that was dialed is silent until a handshake for a
served torrent is complete in what it has read, and from then on says nothing but its answer; the
side that dialed is only content with a handshake for the torrent it dialed.
-/

namespace TorrentCore

namespace Link

def taken (l l' : Link) : Bytes := l.incoming.held.take (l.incoming.count - l'.incoming.count)

def added (l l' : Link) : Bytes := l'.outgoing.held.drop l.outgoing.count

@[simp] theorem taken_of_incoming {l l' : Link} (h : l'.incoming = l.incoming) :
    l.taken l' = [] := by
  rw [taken, h, Nat.sub_self, List.take_zero]

@[simp] theorem taken_drop (l : Link) (count : Nat) :
    l.taken { l with incoming := l.incoming.drop count } = l.incoming.held.take count := by
  rw [taken, Pipe.drop, Nat.sub_sub_eq_min, ← Pipe.length_held, Nat.min_comm]
  exact List.take_eq_take_min.symm

@[simp] theorem added_of_outgoing {l l' : Link} (h : l'.outgoing = l.outgoing) :
    l.added l' = [] := by
  rw [added, h, ← Pipe.length_held, List.drop_length]

@[simp] theorem added_append (l : Link) (bytes : Bytes) :
    l.added { l with outgoing := l.outgoing.append bytes } = bytes := by
  rw [added, Pipe.held_append, ← Pipe.length_held, List.drop_left]

end Link

theorem Exchange.cancel_cases (x : Exchange) :
    x.cancel = x ∨ (x.result? = none ∧ x.cancel = x.fail .cancelled) := by
  unfold cancel result?
  cases x.phase with
  | «over» result => exact Or.inl rfl
  | writing rest => exact Or.inr ⟨rfl, rfl⟩
  | reading => exact Or.inr ⟨rfl, rfl⟩

/-- An exchange on a link, with all that it has read and all that it has written. -/
structure Dialogue where
  exchange : Exchange
  link : Link
  heard : Bytes
  said : Bytes

namespace Dialogue

open Exchange

def start (x : Exchange) (l : Link) : Dialogue := ⟨x, l, [], []⟩

inductive Event where
  | step (now : Nanoseconds)
  | cancel
  | network (link : Link)

def step? (served : Identifier → Bool) (now : Nanoseconds) (d : Dialogue) : Option Dialogue :=
  (d.exchange.step? served now d.link).map fun (x, l) => {
    exchange := x
    link := l
    heard := d.heard ++ d.link.taken l
    said := d.said ++ d.link.added l }

def happen? (served : Identifier → Bool) (d : Dialogue) : Event → Option Dialogue
  | .step now => d.step? served now
  | .cancel => some { d with exchange := d.exchange.cancel }
  | .network link => some { d with link := link }

def run? (served : Identifier → Bool) : List Event → Dialogue → Option Dialogue
  | [], d => some d
  | event :: rest, d => (d.happen? served event).bind (run? served rest)

/-- What is heard begins with the whole of a handshake. -/
def Hears (d : Dialogue) (h : Handshake) : Prop := h.encode <+: d.heard

variable {served : Identifier → Bool} {now : Nanoseconds} {d d' : Dialogue} {h h' : Handshake}

theorem Hears.unique (hears : d.Hears h) (hears' : d.Hears h') : h = h' :=
  Except.ok.inj ((Handshake.decode_eq_ok_iff.mpr hears).symm.trans
    (Handshake.decode_eq_ok_iff.mpr hears'))

theorem run_invariant {P : Dialogue → Prop} {events : List Event}
    (hstep : ∀ {d event d'}, P d → d.happen? served event = some d' → P d') (hd : P d)
    (hrun : run? served events d = some d') : P d' := by
  induction events generalizing d with
  | nil =>
      cases hrun
      exact hd
  | cons event events ih =>
      obtain ⟨next, hnext, hrest⟩ := Option.bind_eq_some_iff.mp hrun
      exact ih (hstep hd hnext) hrest

/-! ### What a step does -/

/-- What a step of an exchange can come to. -/
inductive Advance (served : Identifier → Bool) (now : Nanoseconds) (d : Dialogue) : Dialogue → Prop
  | late (hopen : d.exchange.result? = none) :
      Advance served now d { d with exchange := d.exchange.expire }
  | broken (rest : Bytes) (hphase : d.exchange.phase = .writing rest) :
      Advance served now d { d with exchange := d.exchange.fail (.transport Pipe.brokenCause) }
  | finished (rest : Bytes) (l : Link) (hphase : d.exchange.phase = .writing rest) :
      Advance served now d ⟨d.exchange.written now, l, d.heard, d.said ++ rest⟩
  | wrote (bytes left : Bytes) (l : Link) (hphase : d.exchange.phase = .writing (bytes ++ left))
      (hleft : left ≠ []) :
      Advance served now d
        ⟨{ d.exchange with phase := .writing left }, l, d.heard, d.said ++ bytes⟩
  | ended (hphase : d.exchange.phase = .reading) (l : Link) :
      Advance served now d
        ⟨d.exchange.fail d.exchange.buffer.truncated, l, d.heard, d.said⟩
  | read (bytes : Bytes) (l : Link) (hphase : d.exchange.phase = .reading) (hbytes : bytes ≠ []) :
      Advance served now d
        ⟨receive served d.exchange now (.data bytes), l, d.heard ++ bytes, d.said⟩

theorem advance_of_writing {rest : Bytes} (hphase : d.exchange.phase = .writing rest)
    (hstep : d.step? served now = some d') : Advance served now d d' := by
  obtain ⟨⟨x, l⟩, hnext, rfl⟩ := Option.map_eq_some_iff.mp hstep
  rw [Exchange.step?] at hnext
  simp only [hphase, Pipe.write?] at hnext
  by_cases hclosed : d.link.outgoing.closed = true
  · rw [if_pos hclosed] at hnext
    cases hnext
    simpa using Advance.broken rest hphase
  rw [if_neg hclosed] at hnext
  dsimp only at hnext
  split at hnext
  · next hdone =>
    cases hnext
    have hall : rest.take d.link.outgoing.room = rest :=
      List.take_of_length_le (List.drop_eq_nil_iff.mp (List.isEmpty_iff.mp hdone))
    simpa [hall] using Advance.finished rest _ hphase
  next hleft =>
  split at hnext
  · cases hnext
    have hsplit : d.exchange.phase = .writing
        (rest.take d.link.outgoing.room ++ rest.drop d.link.outgoing.room) := by
      rw [hphase, List.take_append_drop]
    simpa using Advance.wrote _ _ _ hsplit
      fun hnil => hleft (List.isEmpty_iff.mpr hnil)
  · split at hnext <;> cases hnext
    simpa using Advance.late (by rw [result?, hphase])

theorem advance_of_reading (hphase : d.exchange.phase = .reading)
    (hstep : d.step? served now = some d') : Advance served now d d' := by
  obtain ⟨⟨x, l⟩, hnext, rfl⟩ := Option.map_eq_some_iff.mp hstep
  rw [Exchange.step?] at hnext
  simp only [hphase] at hnext
  rw [Pipe.read?] at hnext
  by_cases hempty : d.link.incoming.count = 0
  · rw [if_pos hempty] at hnext
    by_cases hclosed : d.link.incoming.closed = true
    · rw [if_pos hclosed] at hnext
      cases hnext
      simpa [receive] using Advance.ended hphase d.link
    · rw [if_neg hclosed] at hnext
      dsimp only at hnext
      split at hnext <;> cases hnext
      simpa using Advance.late (by rw [result?, hphase])
  · rw [if_neg hempty] at hnext
    cases hnext
    cases hbytes : d.link.incoming.held.take d.exchange.buffer.room with
    | nil => simpa [hbytes, receive] using Advance.ended hphase _
    | cons byte bytes =>
        simpa [hbytes] using Advance.read (byte :: bytes) _ hphase
          (List.cons_ne_nil _ _)

theorem advance_of_step (hstep : d.step? served now = some d') : Advance served now d d' := by
  cases hphase : d.exchange.phase with
  | writing rest => exact advance_of_writing hphase hstep
  | reading => exact advance_of_reading hphase hstep
  | «over» result =>
      rw [step?, Exchange.step?, hphase] at hstep
      cases hstep

theorem receive_cases (served : Identifier → Bool) (now : Nanoseconds) {x : Exchange}
    {bytes : Bytes}
    (hbytes : bytes ≠ []) :
    (∃ h buffer, x.buffer.pending ++ bytes = h.encode ++ buffer.pending
        ∧ receive served x now (.data bytes) = received served { x with buffer := buffer } now h)
      ∨ ((∀ h : Handshake, ¬ h.encode <+: x.buffer.pending ++ bytes)
        ∧ (receive served x now (.data bytes) = { x with buffer := x.buffer.receive bytes }
          ∨ ∃ cause, receive served x now (.data bytes)
            = fail { x with buffer := x.buffer.receive bytes } cause)) := by
  rw [receive_data hbytes]
  cases hdecode : Handshake.decode (x.buffer.receive bytes).pending with
  | ok h =>
      obtain ⟨more, hmore⟩ := Handshake.decode_eq_ok_iff.mp hdecode
      refine Or.inl ⟨h, (x.buffer.receive bytes).consume handshakeLength, ?_, ?_⟩
      · rw [ReadBuffer.pending_consume, ← hmore, ← h.length_encode, List.drop_left, hmore]
        rfl
      · rw [ReadBuffer.handshake_of_encode hmore.symm]
  | error cause =>
      have hnone (h : Handshake) : ¬ h.encode <+: x.buffer.pending ++ bytes := by
        intro hfront
        have hread := Handshake.decode_eq_ok_iff.mpr hfront
        rw [ReadBuffer.receive, hread] at hdecode
        cases hdecode
      refine Or.inr ⟨hnone, ?_⟩
      rw [ReadBuffer.handshake, hdecode]
      cases cause with
      | badLength received => exact Or.inr ⟨_, rfl⟩
      | protocolMismatch => exact Or.inr ⟨_, rfl⟩
      | empty | shortProtocolName | shortReserved | shortInfoHash | shortPeerId => exact Or.inl rfl

/-! ### The side that was dialed -/

/-- An end that has nothing to do with what the other side has sent. -/
def IsOutside : HandshakeError → Prop
  | .cancelled | .noResponse | .transport _ => True
  | _ => False

/-- The side that was dialed says nothing but its answer, and that only to a handshake for a served
torrent. -/
structure Discreet (served : Identifier → Bool) (ownId : Identifier) (d : Dialogue) : Prop where
  silent : d.said ≠ [] → ∃ h, d.Hears h ∧ served h.infoHash = true
    ∧ d.said <+: (Handshake.plain h.infoHash ownId).encode
  accepted : ∀ h, d.exchange.result? = some (.ok h) →
    d.heard = h.encode ++ d.exchange.buffer.pending ∧ served h.infoHash = true
      ∧ d.said = (Handshake.plain h.infoHash ownId).encode
  refused : ∀ h, d.Hears h → served h.infoHash = false →
    d.said = [] ∧ d.exchange.result? = some (.error (.unknownInfoHash h.infoHash))
  /-- Only from outside can the answer be prevented. -/
  answered : ∀ h, d.Hears h → served h.infoHash = true → ∀ result,
    d.exchange.result? = some result →
      result = .ok h ∨ ∃ cause, result = .error cause ∧ IsOutside cause
  /-- It goes on writing until all of the answer is written, wherever there is room. -/
  goesOn : ∀ h, d.Hears h → d.exchange.result? = none → d.link.outgoing.closed = false →
    0 < d.link.outgoing.room →
    ∀ now, ∃ d', d.step? served now = some d' ∧ d.said.length < d'.said.length

def Unheard (d : Dialogue) : Prop := ∀ h, ¬ d.Hears h

def Host (served : Identifier → Bool) (ownId : Identifier) (d : Dialogue) : Prop :=
  match d.exchange.phase with
  | .reading => d.exchange.dialed = none ∧ d.exchange.ownId = ownId
    ∧ d.exchange.buffer.pending = d.heard ∧ d.Unheard ∧ d.said = []
  | .writing rest =>
      ∃ h, d.exchange.theirs = some h ∧ d.heard = h.encode ++ d.exchange.buffer.pending
    ∧ served h.infoHash = true ∧ rest ≠ []
    ∧ d.said ++ rest = (Handshake.plain h.infoHash ownId).encode
  | .over (.ok h) => d.heard = h.encode ++ d.exchange.buffer.pending ∧ served h.infoHash = true
    ∧ d.said = (Handshake.plain h.infoHash ownId).encode
  | .over (.error cause) => (d.Unheard ∧ d.said = [])
    ∨ (∃ h, d.Hears h ∧ served h.infoHash = false ∧ cause = .unknownInfoHash h.infoHash ∧ d.said = [])
    ∨ ∃ h, d.Hears h ∧ served h.infoHash = true ∧ IsOutside cause
      ∧ d.said <+: (Handshake.plain h.infoHash ownId).encode

namespace Host

variable {ownId : Identifier}

theorem start (served : Identifier → Bool) (ownId : Identifier) (timeout : Nanoseconds)
    (limit : UInt32) (now : Nanoseconds) (l : Link) :
    Host served ownId (.start (.inbound ownId timeout limit now) l) :=
  ⟨rfl, rfl, rfl, fun _ hears => absurd (List.prefix_nil.mp hears) nofun, rfl⟩

theorem fail (hd : Host served ownId d) (hopen : d.exchange.result? = none) {cause : HandshakeError}
    (hcause : IsOutside cause) :
    Host served ownId { d with exchange := d.exchange.fail cause } := by
  cases hphase : d.exchange.phase with
  | reading =>
      rw [Host, hphase] at hd
      obtain ⟨_, _, _, hnone, hsilent⟩ := hd
      exact Or.inl ⟨hnone, hsilent⟩
  | writing rest =>
      rw [Host, hphase] at hd
      obtain ⟨h, _, hheard, hserved, _, hsaid⟩ := hd
      exact Or.inr (Or.inr ⟨h, ⟨_, hheard.symm⟩, hserved, hcause, rest, hsaid⟩)
  | «over» result =>
      rw [result?, hphase] at hopen
      cases hopen

theorem advance (hd : Host served ownId d) (hadvance : Advance served now d d') :
    Host served ownId d' := by
  cases hadvance with
  | late hopen => exact hd.fail hopen trivial
  | broken rest hphase => exact hd.fail (by rw [result?, hphase]) trivial
  | finished rest l hphase =>
      rw [Host, hphase] at hd
      obtain ⟨h, htheirs, hheard, hserved, _, hsaid⟩ := hd
      rw [written, htheirs]
      exact ⟨hheard, hserved, hsaid⟩
  | wrote bytes left l hphase hleft =>
      rw [Host, hphase] at hd
      obtain ⟨h, htheirs, hheard, hserved, _, hsaid⟩ := hd
      exact ⟨h, htheirs, hheard, hserved, hleft, (List.append_assoc _ _ _).trans hsaid⟩
  | ended hphase l =>
      rw [Host, hphase] at hd
      obtain ⟨_, _, _, hnone, hsilent⟩ := hd
      exact Or.inl ⟨hnone, hsilent⟩
  | read bytes l hphase hbytes =>
      rw [Host, hphase] at hd
      obtain ⟨hdialed, hown, hpending, _, hsilent⟩ := hd
      rw [← hpending]
      rcases receive_cases served now hbytes with
        ⟨h, buffer, hwhole, hreceive⟩ | ⟨hnone, hreceive | ⟨cause, hreceive⟩⟩
      · rw [hreceive]
        cases hserved : served h.infoHash with
        | true =>
            have hanswer := @received_of_served served now { d.exchange with buffer := buffer } h
              hdialed hserved
            rw [hanswer]
            refine ⟨h, rfl, hwhole, hserved, fun hnone => (by cases hnone), ?_⟩
            rw [hsilent, List.nil_append, ← hown]
        | false =>
            simp only [received, hdialed, hserved]
            exact Or.inr (Or.inl ⟨h, ⟨_, hwhole.symm⟩, hserved, rfl, hsilent⟩)
      · rw [hreceive, Host, hphase]
        exact ⟨hdialed, hown, rfl, hnone, hsilent⟩
      · rw [hreceive]
        exact Or.inl ⟨hnone, hsilent⟩

theorem happen (hd : Host served ownId d) {event : Event}
    (hstep : d.happen? served event = some d') :
    Host served ownId d' := by
  cases event with
  | step now => exact hd.advance (advance_of_step hstep)
  | cancel =>
      cases hstep
      rcases d.exchange.cancel_cases with hover | ⟨hopen, hcancel⟩
      · rwa [hover]
      · rw [hcancel]
        exact hd.fail hopen trivial
  | network link =>
      cases hstep
      exact hd

theorem run (served : Identifier → Bool) (ownId : Identifier) {timeout : Nanoseconds}
    {limit : UInt32}
    {now : Nanoseconds} {l : Link} {events : List Event}
    (hrun : run? served events (.start (.inbound ownId timeout limit now) l) = some d) :
    Host served ownId d :=
  run_invariant (fun h hstep => h.happen hstep) (start served ownId timeout limit now l) hrun

end Host

theorem step_of_writing {rest : Bytes} (hphase : d.exchange.phase = .writing rest)
    (hrest : rest ≠ [])
    (hopen : d.link.outgoing.closed = false) (hroom : 0 < d.link.outgoing.room) :
    ∃ d', d.step? served now = some d' ∧ d.said.length < d'.said.length := by
  have hpos := List.length_pos_iff.mpr hrest
  have hgrows : 0 < (rest.take d.link.outgoing.room).length := by
    rw [List.length_take]
    omega
  rw [step?, Exchange.step?]
  simp only [hphase, Pipe.write?, hopen, Bool.false_eq_true, if_false]
  by_cases hdone : (rest.drop d.link.outgoing.room).isEmpty = true
  · rw [if_pos hdone]
    refine ⟨_, rfl, ?_⟩
    simpa using hgrows
  · rw [if_neg hdone, if_pos (by rw [List.length_drop]; omega)]
    refine ⟨_, rfl, ?_⟩
    simpa using hgrows

/-- As long as it has heard no handshake, it is enough to be silent. -/
theorem discreet_of_unheard {ownId : Identifier} (hnone : d.Unheard) (hsilent : d.said = [])
    (hresult : ∀ h, d.exchange.result? ≠ some (.ok h)) : Discreet served ownId d where
  silent hsaid := absurd hsilent hsaid
  accepted h hresult' := absurd hresult' (hresult h)
  refused h hears := absurd hears (hnone h)
  answered h hears := absurd hears (hnone h)
  goesOn h hears := absurd hears (hnone h)

theorem discreet_of_refused {ownId : Identifier} {h : Handshake} (hears : d.Hears h)
    (hrefused : served h.infoHash = false) (hsilent : d.said = [])
    (hresult : d.exchange.result? = some (.error (.unknownInfoHash h.infoHash))) :
    Discreet served ownId d where
  silent hsaid := absurd hsilent hsaid
  accepted h' hresult' := by cases hresult.symm.trans hresult'
  refused h' hears' _ := by
    rw [hears'.unique hears]
    exact ⟨hsilent, hresult⟩
  answered h' hears' hserved := by
    rw [hears'.unique hears, hrefused] at hserved
    cases hserved
  goesOn _ _ hopen := by
    rw [hresult] at hopen
    cases hopen

/-- After a handshake for a served torrent, it is the end of the exchange that matters and that it
writes until then. -/
theorem discreet_of_served {ownId : Identifier} {h : Handshake} (hears : d.Hears h)
    (hserved : served h.infoHash = true)
    (hsaid : d.said <+: (Handshake.plain h.infoHash ownId).encode)
    (haccepted : ∀ h', d.exchange.result? = some (.ok h') →
      h' = h ∧ d.heard = h.encode ++ d.exchange.buffer.pending
        ∧ d.said = (Handshake.plain h.infoHash ownId).encode)
    (hfailed : ∀ cause, d.exchange.result? = some (.error cause) → IsOutside cause)
    (hgoesOn : d.exchange.result? = none → d.link.outgoing.closed = false →
      0 < d.link.outgoing.room →
      ∀ now, ∃ d', d.step? served now = some d' ∧ d.said.length < d'.said.length) :
    Discreet served ownId d where
  silent _ := ⟨h, hears, hserved, hsaid⟩
  accepted h' hresult := by
    obtain ⟨rfl, hheard, hall⟩ := haccepted h' hresult
    exact ⟨hheard, hserved, hall⟩
  refused h' hears' hrefused := by
    rw [hears'.unique hears, hserved] at hrefused
    cases hrefused
  answered h' hears' _ result hresult := by
    cases result with
    | ok h'' =>
        obtain ⟨rfl, _, _⟩ := haccepted h'' hresult
        exact Or.inl (by rw [hears'.unique hears])
    | error cause => exact Or.inr ⟨cause, rfl, hfailed cause hresult⟩
  goesOn _ _ := hgoesOn

theorem Host.discreet {ownId : Identifier} (hd : Host served ownId d) :
    Discreet served ownId d := by
  cases hphase : d.exchange.phase with
  | reading =>
      rw [Host, hphase] at hd
      obtain ⟨_, _, _, hnone, hsilent⟩ := hd
      refine discreet_of_unheard hnone hsilent fun h hresult => ?_
      rw [result?, hphase] at hresult
      cases hresult
  | writing rest =>
      rw [Host, hphase] at hd
      obtain ⟨h, _, hheard, hserved, hrest, hsaid⟩ := hd
      have hresult : d.exchange.result? = none := by rw [result?, hphase]
      refine discreet_of_served ⟨_, hheard.symm⟩ hserved ⟨rest, hsaid⟩ (fun h' hok => ?_)
        (fun cause herror => ?_) fun _ hopen hroom _ => step_of_writing hphase hrest hopen hroom
      · cases hresult.symm.trans hok
      · cases hresult.symm.trans herror
  | «over» result =>
      have hresult : d.exchange.result? = some result := by rw [result?, hphase]
      have hnotOpen : d.exchange.result? ≠ none := by
        rw [hresult]
        exact Option.some_ne_none _
      cases result with
      | ok h =>
          rw [Host, hphase] at hd
          obtain ⟨hheard, hserved, hsaid⟩ := hd
          refine discreet_of_served ⟨_, hheard.symm⟩ hserved (hsaid ▸ List.prefix_rfl)
            (fun h' hok => ?_) (fun cause herror => ?_) fun hopen => absurd hopen hnotOpen
          · cases hresult.symm.trans hok
            exact ⟨rfl, hheard, hsaid⟩
          · cases hresult.symm.trans herror
      | error cause =>
          have hnotOk (h : Handshake) : d.exchange.result? ≠ some (.ok h) := by
            rw [hresult]
            intro hsame
            cases hsame
          rw [Host, hphase] at hd
          rcases hd with ⟨hnone, hsilent⟩ | ⟨h, hears, hrefused, rfl, hsilent⟩
            | ⟨h, hears, hserved, hcause, hsaid⟩
          · exact discreet_of_unheard hnone hsilent hnotOk
          · exact discreet_of_refused hears hrefused hsilent hresult
          · refine discreet_of_served hears hserved hsaid (fun h' hok => absurd hok (hnotOk h'))
              (fun cause' herror => ?_) fun hopen => absurd hopen hnotOpen
            cases hresult.symm.trans herror
            exact hcause

/-! ### The side that dialed -/

/-- The side that dialed says its handshake and nothing else, and takes only an answer for the
torrent that it dialed. -/
structure Particular (infoHash ownId : Identifier) (d : Dialogue) : Prop where
  said : d.said <+: (Handshake.plain infoHash ownId).encode
  accepted : ∀ h, d.exchange.result? = some (.ok h) →
    h.infoHash = infoHash ∧ d.heard = h.encode ++ d.exchange.buffer.pending
      ∧ d.said = (Handshake.plain infoHash ownId).encode
  /-- Once it has heard a handshake, that decides. -/
  decided : ∀ h, d.Hears h → d.exchange.result? = some
    (if h.infoHash = infoHash then .ok h else .error (.unknownInfoHash h.infoHash))

def Caller (infoHash ownId : Identifier) (d : Dialogue) : Prop :=
  let own := (Handshake.plain infoHash ownId).encode
  match d.exchange.phase with
  | .writing rest => d.exchange.dialed = some infoHash ∧ d.exchange.theirs = none
    ∧ d.exchange.buffer.pending = d.heard ∧ d.Unheard ∧ d.said ++ rest = own
  | .reading => d.exchange.dialed = some infoHash
    ∧ d.exchange.buffer.pending = d.heard ∧ d.Unheard ∧ d.said = own
  | .over (.ok h) => h.infoHash = infoHash ∧ d.heard = h.encode ++ d.exchange.buffer.pending
    ∧ d.said = own
  | .over (.error cause) => d.said <+: own ∧ (d.Unheard
    ∨ ∃ h, d.Hears h ∧ h.infoHash ≠ infoHash ∧ cause = .unknownInfoHash h.infoHash)

namespace Caller

variable {infoHash ownId : Identifier}

theorem start (infoHash ownId : Identifier) (timeout : Nanoseconds) (limit : UInt32)
    (now : Nanoseconds) (l : Link) :
    Caller infoHash ownId (.start (.outbound infoHash ownId timeout limit now) l) :=
  ⟨rfl, rfl, rfl, fun _ hears => absurd (List.prefix_nil.mp hears) nofun, rfl⟩

theorem fail (hd : Caller infoHash ownId d) (hopen : d.exchange.result? = none)
    (cause : HandshakeError) :
    Caller infoHash ownId { d with exchange := d.exchange.fail cause } := by
  cases hphase : d.exchange.phase with
  | reading =>
      rw [Caller, hphase] at hd
      obtain ⟨_, _, hnone, hsaid⟩ := hd
      exact ⟨hsaid ▸ List.prefix_rfl, Or.inl hnone⟩
  | writing rest =>
      rw [Caller, hphase] at hd
      obtain ⟨_, _, _, hnone, hsaid⟩ := hd
      exact ⟨⟨rest, hsaid⟩, Or.inl hnone⟩
  | «over» result =>
      rw [result?, hphase] at hopen
      cases hopen

theorem advance (hd : Caller infoHash ownId d) (hadvance : Advance served now d d') :
    Caller infoHash ownId d' := by
  cases hadvance with
  | late hopen => exact hd.fail hopen _
  | broken rest hphase => exact hd.fail (by rw [result?, hphase]) _
  | finished rest l hphase =>
      rw [Caller, hphase] at hd
      obtain ⟨hdialed, htheirs, hpending, hnone, hsaid⟩ := hd
      rw [written, htheirs]
      exact ⟨hdialed, hpending, hnone, hsaid⟩
  | wrote bytes left l hphase hleft =>
      rw [Caller, hphase] at hd
      obtain ⟨hdialed, htheirs, hpending, hnone, hsaid⟩ := hd
      exact ⟨hdialed, htheirs, hpending, hnone, (List.append_assoc _ _ _).trans hsaid⟩
  | ended hphase l =>
      rw [Caller, hphase] at hd
      obtain ⟨_, _, hnone, hsaid⟩ := hd
      exact ⟨hsaid ▸ List.prefix_rfl, Or.inl hnone⟩
  | read bytes l hphase hbytes =>
      rw [Caller, hphase] at hd
      obtain ⟨hdialed, hpending, _, hsaid⟩ := hd
      rw [← hpending]
      rcases receive_cases served now hbytes with
        ⟨h, buffer, hwhole, hreceive⟩ | ⟨hnone, hreceive | ⟨cause, hreceive⟩⟩
      · rw [hreceive]
        simp only [received, hdialed]
        split
        · next hsame => exact ⟨hsame, hwhole, hsaid⟩
        · next hother =>
          exact ⟨hsaid ▸ List.prefix_rfl, Or.inr ⟨h, ⟨_, hwhole.symm⟩, hother, rfl⟩⟩
      · rw [hreceive, Caller, hphase]
        exact ⟨hdialed, rfl, hnone, hsaid⟩
      · rw [hreceive]
        exact ⟨hsaid ▸ List.prefix_rfl, Or.inl hnone⟩

theorem happen (hd : Caller infoHash ownId d) {event : Event}
    (hstep : d.happen? served event = some d') : Caller infoHash ownId d' := by
  cases event with
  | step now => exact hd.advance (advance_of_step hstep)
  | cancel =>
      cases hstep
      rcases d.exchange.cancel_cases with hover | ⟨hopen, hcancel⟩
      · rwa [hover]
      · rw [hcancel]
        exact hd.fail hopen _
  | network link =>
      cases hstep
      exact hd

theorem run {timeout : Nanoseconds} {limit : UInt32} {now : Nanoseconds} {l : Link}
    {events : List Event}
    (hrun : run? served events (.start (.outbound infoHash ownId timeout limit now) l) = some d) :
    Caller infoHash ownId d :=
  run_invariant (fun h hstep => h.happen hstep) (start infoHash ownId timeout limit now l) hrun

theorem particular (hd : Caller infoHash ownId d) : Particular infoHash ownId d := by
  cases hphase : d.exchange.phase with
  | reading =>
      rw [Caller, hphase] at hd
      obtain ⟨_, _, hnone, hsaid⟩ := hd
      exact {
        said := hsaid ▸ List.prefix_rfl
        accepted := fun h hresult => by rw [result?, hphase] at hresult; cases hresult
        decided := fun h hears => absurd hears (hnone h) }
  | writing rest =>
      rw [Caller, hphase] at hd
      obtain ⟨_, _, _, hnone, hsaid⟩ := hd
      exact {
        said := ⟨rest, hsaid⟩
        accepted := fun h hresult => by rw [result?, hphase] at hresult; cases hresult
        decided := fun h hears => absurd hears (hnone h) }
  | «over» result =>
      have hresult : d.exchange.result? = some result := by rw [result?, hphase]
      cases result with
      | ok h =>
          rw [Caller, hphase] at hd
          obtain ⟨hsame, hheard, hsaid⟩ := hd
          exact {
            said := hsaid ▸ List.prefix_rfl
            accepted := fun h' hresult' => by
              cases hresult.symm.trans hresult'
              exact ⟨hsame, hheard, hsaid⟩
            decided := fun h' hears' => by
              rw [hears'.unique ⟨_, hheard.symm⟩, if_pos hsame, hresult] }
      | error cause =>
          rw [Caller, hphase] at hd
          obtain ⟨hsaid, hfailed⟩ := hd
          exact {
            said := hsaid
            accepted := fun h' hresult' => by cases hresult.symm.trans hresult'
            decided := fun h' hears' => by
              rcases hfailed with hnone | ⟨h, hears, hother, rfl⟩
              · exact absurd hears' (hnone h')
              · rw [hears'.unique hears, if_neg hother, hresult] }

end Caller

end Dialogue

end TorrentCore
