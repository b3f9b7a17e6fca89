import TorrentCore.Proofs.Exchange
import TorrentCore.Proofs.Swarm.Dials

/-!
# What passes between the two ends of a socket

`Talk` relates how far a socket has come on the side that dialed to how far it has come on the other
one. The dialing side says its handshake, the other one answers when it has read all of it, and then
takes the socket or refuses it. The dialing side does the same once it has read the answer. In each
of these cases all bytes of the handshake that is being said are accounted for: some wait in the
buffer of who is listening, some are on the link, and the rest is still to be written. That is why
neither exchange can fail, whatever order the bytes are carried in and however they are cut.
-/

namespace TorrentCore

/-- A link of which neither direction is closed. -/
structure Link.Calm (l : Link) : Prop where
  incoming_open : l.incoming.closed = false
  outgoing_open : l.outgoing.closed = false

namespace Exchange

structure Asks (x : Exchange) (infoHash : Identifier) : Prop where
  dialed_eq : x.dialed = some infoHash
  theirs_eq : x.theirs = none

structure Answers (y : Exchange) (ownId : Identifier) : Prop where
  dialed_eq : y.dialed = none
  ownId_eq : y.ownId = ownId

theorem Awaits.of_incoming {x : Exchange} {l l' : Link} {coming whole : Bytes}
    (h : x.Awaits l coming whole) (hsame : l'.incoming = l.incoming) : x.Awaits l' coming whole :=
  ⟨h.reading, h.fresh, h.short, hsame ▸ h.bytes_eq⟩

theorem Awaits.result?_eq {x : Exchange} {l : Link} {coming whole : Bytes}
    (h : x.Awaits l coming whole) : x.result? = none := by
  rw [result?, h.reading]

end Exchange

open Exchange

/-! ### The network -/

/-- What the network does to the two ends of a socket. -/
structure Link.Passes (near far near' far' : Link) : Prop where
  moved : ∃ bytes, near.outgoing.held = bytes ++ near'.outgoing.held
    ∧ far'.incoming.held = far.incoming.held ++ bytes
  incoming_eq : near'.incoming = near.incoming
  outgoing_eq : far'.outgoing = far.outgoing
  outgoing_closed : near'.outgoing.closed = true →
    near.outgoing.closed = true ∨ far.incoming.closed = true
  incoming_closed : far'.incoming.closed = true →
    far.incoming.closed = true ∨ (near.outgoing.closed = true ∧ near.outgoing.held = [])

theorem Link.passes_of_pass? {near far near' far' : Link} {passage : Passage}
    (h : passage.pass? near far = some (near', far')) : near.Passes far near' far' := by
  cases passage with
  | carry count =>
      rw [Passage.pass?] at h
      split at h <;> cases h
      refine ⟨⟨near.outgoing.held.take count, ?_, Pipe.held_append _ _⟩, rfl, rfl, Or.inl, Or.inl⟩
      rw [Pipe.held_drop, List.take_append_drop]
  | endOfStream =>
      rw [Passage.pass?] at h
      split at h <;> cases h
      next hended =>
      rw [Bool.and_eq_true, decide_eq_true_eq] at hended
      refine ⟨⟨[], rfl, (List.append_nil _).symm⟩, rfl, rfl, Or.inl, fun _ => Or.inr ⟨hended.1, ?_⟩⟩
      rw [← List.length_eq_zero_iff, Pipe.length_held, hended.2]
  | broken =>
      rw [Passage.pass?] at h
      split at h <;> cases h
      next hclosed =>
      exact ⟨⟨[], rfl, (List.append_nil _).symm⟩, rfl, rfl, fun _ => Or.inr hclosed, Or.inl⟩

namespace Link.Passes

variable {near far near' far' : Link}

theorem outgoing_open (h : near.Passes far near' far') (hnear : near.outgoing.closed = false)
    (hfar : far.incoming.closed = false) : near'.outgoing.closed = false := by
  rw [← Bool.not_eq_true]
  intro hclosed
  rcases h.outgoing_closed hclosed with hclosed | hclosed
  · exact Bool.noConfusion (hnear.symm.trans hclosed)
  · exact Bool.noConfusion (hfar.symm.trans hclosed)

theorem incoming_open (h : near.Passes far near' far') (hnear : near.outgoing.closed = false)
    (hfar : far.incoming.closed = false) : far'.incoming.closed = false := by
  rw [← Bool.not_eq_true]
  intro hclosed
  rcases h.incoming_closed hclosed with hclosed | ⟨hclosed, _⟩
  · exact Bool.noConfusion (hfar.symm.trans hclosed)
  · exact Bool.noConfusion (hnear.symm.trans hclosed)

theorem calm (h : near.Passes far near' far') (hnear : near.Calm) (hfar : far.Calm) :
    near'.Calm ∧ far'.Calm :=
  ⟨⟨h.incoming_eq ▸ hnear.incoming_open, h.outgoing_open hnear.outgoing_open hfar.incoming_open⟩,
    ⟨h.incoming_open hnear.outgoing_open hfar.incoming_open, h.outgoing_eq ▸ hfar.outgoing_open⟩⟩

theorem awaits {x : Exchange} {rest whole : Bytes} (h : near.Passes far near' far')
    (hawaits : x.Awaits far (near.outgoing.held ++ rest) whole) :
    x.Awaits far' (near'.outgoing.held ++ rest) whole := by
  obtain ⟨bytes, hout, hin⟩ := h.moved
  refine ⟨hawaits.reading, hawaits.fresh, hawaits.short, ?_⟩
  rw [← hawaits.bytes_eq, hout, hin]
  simp only [List.append_assoc]

theorem nothing_left (h : near.Passes far near' far') (hnone : near.outgoing.held = []) :
    near'.outgoing.held = [] ∧ far'.incoming.held = far.incoming.held := by
  obtain ⟨bytes, hout, hin⟩ := h.moved
  rw [hnone] at hout
  obtain ⟨hbytes, hleft⟩ := List.append_eq_nil_iff.mp hout.symm
  exact ⟨hleft, by rw [hin, hbytes, List.append_nil]⟩

end Link.Passes

/-! ### The two ends -/

/-- How far a socket has come on the side that dialed and on the other side. -/
inductive Talk (infoHash dialerId acceptorId : Identifier) (session : Nat) : Stage → Stage → Prop
  | unopened : Talk infoHash dialerId acceptorId session (.dialing (some session)) .absent
  /-- The handshake of the side that dialed is on its way. -/
  | asking (x y : Exchange) (l m : Link) (rest : Bytes) (hx : x.Asks infoHash)
      (hy : y.Answers acceptorId) (hl : l.Calm) (hm : m.Calm)
      (hsaid : (x.phase = .writing rest ∧ rest ≠ []) ∨ (x.phase = .reading ∧ rest = []))
      (hfresh : x.buffer.Fresh 0) (hpending : x.buffer.pending = [])
      (hsilent : m.outgoing.held = [] ∧ l.incoming.held = [])
      (hheard : y.Awaits m (l.outgoing.held ++ rest) (Handshake.plain infoHash dialerId).encode) :
      Talk infoHash dialerId acceptorId session (.exchanging (some session) x l)
        (.exchanging none y m)
  /-- The answer is being written. -/
  | answering (x y : Exchange) (l m : Link) (rest : Bytes) (hx : x.Asks infoHash) (hl : l.Calm)
      (hm : m.Calm) (hsaid : y.phase = .writing rest) (hrest : rest ≠ [])
      (htheirs : y.theirs = some (.plain infoHash dialerId))
      (hheard : x.Awaits l (m.outgoing.held ++ rest) (Handshake.plain infoHash acceptorId).encode) :
      Talk infoHash dialerId acceptorId session (.exchanging (some session) x l)
        (.exchanging none y m)
  /-- The answer is on its way, and what the connection has to say comes after it. -/
  | accepted (x : Exchange) (d : Duty) (l : Link) (s : Bytes) (hx : x.Asks infoHash)
      (hl : l.incoming.closed = false) (hm : d.link.outgoing.closed = false)
      (hheard : x.Awaits l d.link.outgoing.held
        ((Handshake.plain infoHash acceptorId).encode ++ s)) :
      Talk infoHash dialerId acceptorId session (.exchanging (some session) x l) (.taken d)
  /-- The answer is on its way, and then the stream ends. -/
  | declined (x : Exchange) (l m : Link) (s : Bytes) (hx : x.Asks infoHash)
      (hlast : l.incoming.closed = true → m.outgoing.held = [])
      (hheard : x.Awaits l m.outgoing.held ((Handshake.plain infoHash acceptorId).encode ++ s)) :
      Talk infoHash dialerId acceptorId session (.exchanging (some session) x l) (.refused m)
  | decided (dialer acceptor : Stage) (hdialer : dialer.verdict? ≠ none)
      (hacceptor : acceptor.verdict? ≠ none) :
      Talk infoHash dialerId acceptorId session dialer acceptor

namespace Talk

variable {infoHash dialerId acceptorId : Identifier} {session : Nat} {a b : Stage}

theorem dialer_eq {dialer : Option Nat} {x : Exchange} {l : Link}
    (h : Talk infoHash dialerId acceptorId session (.exchanging dialer x l) b) :
    dialer = some session := by
  cases h with
  | decided _ _ hdialer _ => exact absurd rfl hdialer
  | _ => rfl

theorem acceptor_eq {dialer : Option Nat} {y : Exchange} {m : Link}
    (h : Talk infoHash dialerId acceptorId session a (.exchanging dialer y m)) :
    dialer = none := by
  cases h with
  | decided _ _ _ hacceptor => exact absurd rfl hacceptor
  | _ => rfl

theorem eq_of_isDialing (h : Talk infoHash dialerId acceptorId session a b)
    (ha : a.isDialing = true) : a = .dialing (some session) ∧ b = .absent := by
  cases h with
  | unopened => exact ⟨rfl, rfl⟩
  | decided _ _ hover _ =>
      cases a with
      | dialing => exact absurd rfl hover
      | absent | exchanging | taken | refused => cases ha
  | asking | answering | accepted | declined => cases ha

theorem opened (infoHash dialerId acceptorId : Identifier) (session capacity : Nat)
    (timeout timeout' : Nanoseconds) (limit limit' : UInt32) (now : Nanoseconds) :
    Talk infoHash dialerId acceptorId session
      (.exchanging (some session) (.outbound infoHash dialerId timeout limit now) (.make capacity))
      (.exchanging none (.inbound acceptorId timeout' limit' now) (.make capacity)) := by
  have hfresh : ∀ limit, (ReadBuffer.forMessages limit).Fresh 0 := fun limit =>
    ReadBuffer.fresh_forMessages (UInt32.le_iff_toNat_le.mpr (Nat.zero_le _))
  have hempty : (Pipe.make capacity).held = [] := rfl
  refine .asking _ _ _ _ (Handshake.plain infoHash dialerId).encode ⟨rfl, rfl⟩ ⟨rfl, rfl⟩ ⟨rfl, rfl⟩
    ⟨rfl, rfl⟩ (Or.inl ⟨rfl, List.cons_ne_nil _ _⟩) (hfresh _) rfl ⟨hempty, hempty⟩ ?_
  exact ⟨rfl, hfresh _, Nat.zero_lt_succ 67, rfl⟩

/-! ### Steps of the exchanges -/

variable {served : Identifier → Bool} {now : Nanoseconds} {dialer : Option Nat}

/-- The side that dialed goes on, or has the answer. Then the other side has decided. -/
theorem dialer_step {x x' : Exchange} {l l' : Link}
    (h : Talk infoHash dialerId acceptorId session (.exchanging dialer x l) b)
    (htime : now < x.deadline.ceilMilliseconds) (hstep : x.step? served now l = some (x', l')) :
    (x'.result? = none
        ∧ Talk infoHash dialerId acceptorId session (.exchanging dialer x' l') b)
      ∨ (x'.result? = some (.ok (.plain infoHash acceptorId)) ∧ b.verdict? ≠ none) := by
  cases h with
  | asking _ y _ m rest hx hy hl hm hsaid hfresh hpending hsilent hheard =>
      rcases hsaid with ⟨hwriting, _⟩ | ⟨hreading, _⟩
      · obtain ⟨left, outgoing, rfl, hopen, hbytes, hnext⟩ :=
          step?_writing hwriting hl.outgoing_open htime hstep
        rw [← hbytes] at hheard
        rcases hnext with ⟨rfl, rfl⟩ | ⟨hleft, rfl⟩
        · have hwritten : x.written now
              = { x with phase := .reading, deadline := now + x.timeout } := by
            rw [written, hx.theirs_eq]
          rw [hwritten]
          exact Or.inl ⟨rfl, .asking _ y _ m [] ⟨hx.dialed_eq, hx.theirs_eq⟩ hy
            ⟨hl.incoming_open, hopen⟩ hm (Or.inr ⟨rfl, rfl⟩) hfresh hpending hsilent hheard⟩
        · exact Or.inl ⟨rfl, .asking _ y _ m left ⟨hx.dialed_eq, hx.theirs_eq⟩ hy
            ⟨hl.incoming_open, hopen⟩ hm (Or.inl ⟨rfl, hleft⟩) hfresh hpending hsilent hheard⟩
      · -- There is nothing to read before the other side has answered.
        rw [step?_idle hreading htime hl.incoming_open hsilent.2] at hstep
        cases hstep
  | answering _ y _ m rest hx hl hm hsaid hrest htheirs hheard =>
      obtain ⟨buffer, incoming, rfl, hopen, hnext⟩ :=
        hheard.step_of_open (List.append_nil _).symm htime hl.incoming_open hstep
      rcases hnext with ⟨rfl, hawaits⟩ | ⟨_, hnone⟩
      · exact Or.inl ⟨hawaits.result?_eq, .answering _ y _ m rest ⟨hx.dialed_eq, hx.theirs_eq⟩
          ⟨hopen, hl.outgoing_open⟩ hm hsaid hrest htheirs hawaits⟩
      · -- What is not written yet cannot have been read.
        rw [← List.append_assoc] at hnone
        exact absurd (List.append_eq_nil_iff.mp hnone).2 hrest
  | accepted _ d _ s hx hl hm hheard =>
      obtain ⟨buffer, incoming, rfl, hopen, hnext⟩ := hheard.step_of_open rfl htime hl hstep
      rcases hnext with ⟨rfl, hawaits⟩ | ⟨rfl, _⟩
      · exact Or.inl ⟨hawaits.result?_eq, .accepted _ d _ s ⟨hx.dialed_eq, hx.theirs_eq⟩
          hopen hm hawaits⟩
      · exact Or.inr ⟨result?_received hx.dialed_eq, nofun⟩
  | declined _ _ m s hx hlast hheard =>
      obtain ⟨buffer, incoming, rfl, hclosed, hnext⟩ := hheard.step rfl htime hlast hstep
      rcases hnext with ⟨rfl, hawaits⟩ | ⟨rfl, _⟩
      · exact Or.inl ⟨hawaits.result?_eq, .declined _ _ m s ⟨hx.dialed_eq, hx.theirs_eq⟩
          (fun h => hlast (hclosed ▸ h)) hawaits⟩
      · exact Or.inr ⟨result?_received hx.dialed_eq, nofun⟩
  | decided _ _ hover _ => exact absurd rfl hover

/-- The other side goes on, or has read the handshake and written its answer. Then it decides, and
whatever that is, the talk goes on. -/
theorem acceptor_step {y y' : Exchange} {m m' : Link}
    (h : Talk infoHash dialerId acceptorId session a (.exchanging dialer y m))
    (hserved : served infoHash = true) (htime : now < y.deadline.ceilMilliseconds)
    (hstep : y.step? served now m = some (y', m')) :
    (y'.result? = none
        ∧ Talk infoHash dialerId acceptorId session a (.exchanging dialer y' m'))
      ∨ (y'.result? = some (.ok (.plain infoHash dialerId))
        ∧ (∀ d : Duty, d.link = m' → Talk infoHash dialerId acceptorId session a (.taken d))
        ∧ Talk infoHash dialerId acceptorId session a (.refused m'.hangUp)) := by
  cases h with
  | asking x _ l _ rest hx hy hl hm hsaid hfresh hpending hsilent hheard =>
      obtain ⟨buffer, incoming, rfl, hopen, hnext⟩ :=
        hheard.step_of_open (List.append_nil _).symm htime hm.incoming_open hstep
      have hm' : Link.Calm { m with incoming := incoming } := ⟨hopen, hm.outgoing_open⟩
      rcases hnext with ⟨rfl, hawaits⟩ | ⟨rfl, hnone⟩
      · exact Or.inl ⟨hawaits.result?_eq, .asking x _ l _ rest hx ⟨hy.dialed_eq, hy.ownId_eq⟩ hl hm'
          hsaid hfresh hpending hsilent hawaits⟩
      · rw [← List.append_assoc] at hnone
        -- All of it has been read, so all of it had been written.
        have hrest := (List.append_eq_nil_iff.mp hnone).2
        have hreading : x.phase = .reading := by
          rcases hsaid with ⟨_, hne⟩ | ⟨hreading, _⟩
          · exact absurd hrest hne
          · exact hreading
        have hanswer := @received_of_served served now { y with buffer := buffer }
          (.plain infoHash dialerId) hy.dialed_eq hserved
        rw [hanswer]
        refine Or.inl ⟨rfl, .answering x _ l _ (Handshake.plain infoHash y.ownId).encode hx hl hm'
          rfl (List.cons_ne_nil _ _) rfl ⟨hreading, hfresh, ?_, ?_⟩⟩
        · rw [hpending]
          decide
        · rw [hpending, hsilent.1, hsilent.2, hy.ownId_eq]
          rfl
  | answering x _ l _ rest hx hl hm hsaid hrest htheirs hheard =>
      obtain ⟨left, outgoing, rfl, hopen, hbytes, hnext⟩ :=
        step?_writing hsaid hm.outgoing_open htime hstep
      rw [← hbytes] at hheard
      rcases hnext with ⟨rfl, rfl⟩ | ⟨hleft, rfl⟩
      · rw [List.append_nil] at hheard
        have hwritten : y.written now
            = { y with phase := .over (.ok (.plain infoHash dialerId)) } := by
          rw [written, htheirs]
        rw [hwritten]
        have hheard' : x.Awaits l outgoing.held
            ((Handshake.plain infoHash acceptorId).encode ++ []) := by
          rw [List.append_nil]
          exact hheard
        refine Or.inr ⟨rfl, fun d hd => ?_, ?_⟩
        · exact .accepted x d l [] hx hl.incoming_open (hd ▸ hopen) (hd ▸ hheard')
        · refine .declined x l _ [] hx (fun h => ?_) hheard'
          exact Bool.noConfusion (hl.incoming_open.symm.trans h)
      · exact Or.inl ⟨rfl, .answering x _ l _ left hx hl ⟨hm.incoming_open, hopen⟩ rfl hleft htheirs
          hheard⟩
  | decided _ _ _ hover => exact absurd rfl hover

/-! ### Steps of the network and of the sessions -/

theorem verdict?_mapLink (st : Stage) (f : Link → Link) :
    (st.mapLink f).verdict? = st.verdict? := by
  cases st <;> rfl

theorem pass_forward {l m l' m' : Link} (h : Talk infoHash dialerId acceptorId session a b)
    (ha : a.link? = some l) (hb : b.link? = some m) (hpass : l.Passes m l' m') :
    Talk infoHash dialerId acceptorId session (a.mapLink fun _ => l') (b.mapLink fun _ => m') := by
  cases h with
  | unopened => cases ha
  | asking x y _ _ rest hx hy hl hm hsaid hfresh hpending hsilent hheard =>
      cases ha
      cases hb
      obtain ⟨hl', hm'⟩ := hpass.calm hl hm
      refine .asking x y l' m' rest hx hy hl' hm' hsaid hfresh hpending ?_ (hpass.awaits hheard)
      rw [hpass.incoming_eq, hpass.outgoing_eq]
      exact hsilent
  | answering x y _ _ rest hx hl hm hsaid hrest htheirs hheard =>
      cases ha
      cases hb
      obtain ⟨hl', hm'⟩ := hpass.calm hl hm
      refine .answering x y l' m' rest hx hl' hm' hsaid hrest htheirs ?_
      rw [hpass.outgoing_eq]
      exact hheard.of_incoming hpass.incoming_eq
  | accepted x d _ s hx hl hm hheard =>
      cases ha
      cases hb
      refine .accepted x { d with link := m' } l' s hx ?_ ?_ ?_
      · rw [hpass.incoming_eq, hl]
      · rw [hpass.outgoing_eq, hm]
      · rw [hpass.outgoing_eq]
        exact hheard.of_incoming hpass.incoming_eq
  | declined x _ _ s hx hlast hheard =>
      cases ha
      cases hb
      refine .declined x l' m' s hx ?_ ?_
      · rw [hpass.incoming_eq, hpass.outgoing_eq]
        exact hlast
      · rw [hpass.outgoing_eq]
        exact hheard.of_incoming hpass.incoming_eq
  | decided _ _ hdialer hacceptor =>
      exact .decided _ _ (verdict?_mapLink a _ ▸ hdialer) (verdict?_mapLink b _ ▸ hacceptor)

theorem pass_backward {l m l' m' : Link} (h : Talk infoHash dialerId acceptorId session a b)
    (ha : a.link? = some l) (hb : b.link? = some m) (hpass : m.Passes l m' l') :
    Talk infoHash dialerId acceptorId session (a.mapLink fun _ => l') (b.mapLink fun _ => m') := by
  -- What is read after what was carried over is nothing but what follows the answer.
  have hawaits : ∀ {x : Exchange} {whole : Bytes}, x.Awaits l m.outgoing.held whole →
      x.Awaits l' m'.outgoing.held whole := by
    intro x whole hheard
    rw [← List.append_nil m.outgoing.held] at hheard
    rw [← List.append_nil m'.outgoing.held]
    exact hpass.awaits hheard
  cases h with
  | unopened => cases ha
  | asking x y _ _ rest hx hy hl hm hsaid hfresh hpending hsilent hheard =>
      cases ha
      cases hb
      obtain ⟨hm', hl'⟩ := hpass.calm hm hl
      obtain ⟨hleft, hsame⟩ := hpass.nothing_left hsilent.1
      refine .asking x y l' m' rest hx hy hl' hm' hsaid hfresh hpending
        ⟨hleft, hsame.trans hsilent.2⟩ ?_
      rw [hpass.outgoing_eq]
      exact hheard.of_incoming hpass.incoming_eq
  | answering x y _ _ rest hx hl hm hsaid hrest htheirs hheard =>
      cases ha
      cases hb
      obtain ⟨hm', hl'⟩ := hpass.calm hm hl
      exact .answering x y l' m' rest hx hl' hm' hsaid hrest htheirs (hpass.awaits hheard)
  | accepted x d _ s hx hl hm hheard =>
      cases ha
      cases hb
      exact .accepted x { d with link := m' } l' s hx (hpass.incoming_open hm hl)
        (hpass.outgoing_open hm hl) (hawaits hheard)
  | declined x _ _ s hx hlast hheard =>
      cases ha
      cases hb
      refine .declined x l' m' s hx (fun hclosed => ?_) (hawaits hheard)
      rcases hpass.incoming_closed hclosed with hclosed | ⟨_, hnone⟩
      · exact (hpass.nothing_left (hlast hclosed)).1
      · exact (hpass.nothing_left hnone).1
  | decided _ _ hdialer hacceptor =>
      exact .decided _ _ (verdict?_mapLink a _ ▸ hdialer) (verdict?_mapLink b _ ▸ hacceptor)

theorem dialer_goesOn {d : Duty} (d' : Duty)
    (h : Talk infoHash dialerId acceptorId session (.taken d) b) :
    Talk infoHash dialerId acceptorId session (.taken d') b := by
  cases h with
  | decided _ _ _ hacceptor => exact .decided _ _ nofun hacceptor

/-- The connection of the other side may add to what it has written, and do what it likes once the
side that dialed has decided. -/
theorem acceptor_goesOn {d d' : Duty} (h : Talk infoHash dialerId acceptorId session a (.taken d))
    (hlink : a.verdict? = none → d.link.Onward d'.link) :
    Talk infoHash dialerId acceptorId session a (.taken d') := by
  cases h with
  | accepted x _ l s hx hl hm hheard =>
      have hlink := hlink rfl
      -- More comes after the answer, and nobody reads it yet.
      obtain ⟨more, hwritten⟩ := hlink.written
      refine .accepted x d' l (s ++ more) hx hl (hlink.outgoing_closed.trans hm) ?_
      refine ⟨hheard.reading, hheard.fresh, hheard.short, ?_⟩
      rw [← hwritten, ← List.append_assoc, hheard.bytes_eq, List.append_assoc]
  | decided _ _ hdialer _ => exact .decided _ _ hdialer nofun

end Talk

end TorrentCore
