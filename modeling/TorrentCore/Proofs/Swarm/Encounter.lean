import TorrentCore.Proofs.Dialogue
import TorrentCore.Proofs.Swarm.Introduction

/-!
# How two sides meet

Every move of two sides that are introduced to each other uses up some of what there is left to do,
and as long as one of the exchanges is not over there is a move to make, unless it is too late for
it. So in time both exchanges come to their ends, and what `Stands` says then is how they end.
-/

namespace TorrentCore

/-! ### Links that work -/

structure Link.Works (l : Link) : Prop extends l.Calm where
  incoming_wide : 0 < l.incoming.capacity
  outgoing_wide : 0 < l.outgoing.capacity

theorem Pipe.count_pos_iff {p : Pipe} : 0 < p.count ↔ p.held ≠ [] := by
  rw [← Pipe.length_held, List.length_pos_iff]

namespace Exchange

variable {served : Identifier → Bool} {now : Nanoseconds} {x x' : Exchange} {l l' : Link}

theorem pipes_of_writing {rest : Bytes} (hphase : x.phase = .writing rest)
    (h : x.step? served now l = some (x', l')) :
    l'.incoming = l.incoming
      ∧ (l'.outgoing = l.outgoing ∨ ∃ bytes, l'.outgoing = l.outgoing.append bytes) := by
  rw [step?] at h
  simp only [hphase, Pipe.write?] at h
  by_cases hclosed : l.outgoing.closed = true
  · rw [if_pos hclosed] at h
    cases h
    exact ⟨rfl, .inl rfl⟩
  · rw [if_neg hclosed] at h
    dsimp only at h
    repeat' split at h
    all_goals cases h
    · exact ⟨rfl, .inr ⟨_, rfl⟩⟩
    · exact ⟨rfl, .inr ⟨_, rfl⟩⟩
    · exact ⟨rfl, .inl rfl⟩

theorem pipes_of_reading (hphase : x.phase = .reading)
    (h : x.step? served now l = some (x', l')) :
    (l'.incoming = l.incoming ∨ ∃ count, l'.incoming = l.incoming.drop count)
      ∧ l'.outgoing = l.outgoing := by
  rw [step?] at h
  simp only [hphase] at h
  rw [Pipe.read?] at h
  by_cases hempty : l.incoming.count = 0
  · rw [if_pos hempty] at h
    by_cases hclosed : l.incoming.closed = true
    · rw [if_pos hclosed] at h
      cases h
      exact ⟨.inl rfl, rfl⟩
    · rw [if_neg hclosed] at h
      dsimp only at h
      split at h <;> cases h
      exact ⟨.inl rfl, rfl⟩
  · rw [if_neg hempty] at h
    cases h
    exact ⟨.inr ⟨_, rfl⟩, rfl⟩

theorem step?_writes {rest : Bytes} (hphase : x.phase = .writing rest) (hrest : rest ≠ [])
    (hopen : l.outgoing.closed = false) (htime : now < x.deadline.ceilMilliseconds)
    (h : x.step? served now l = some (x', l')) : l.outgoing.count < l'.outgoing.count := by
  have hpos := List.length_pos_iff.mpr hrest
  rw [step?] at h
  simp only [hphase, Pipe.write?, hopen, Bool.false_eq_true, if_false,
    if_neg (Nat.not_le.mpr htime)] at h
  split at h
  · next hdone =>
    cases h
    have hall := List.drop_eq_nil_iff.mp (List.isEmpty_iff.mp hdone)
    simp only [Pipe.append, List.take_of_length_le hall]
    omega
  · split at h <;> cases h
    next hless =>
    rw [List.length_drop] at hless
    simp only [Pipe.append, List.length_take]
    omega

end Exchange

namespace Link.Works

variable {served : Identifier → Bool} {now : Nanoseconds} {x x' : Exchange} {l l' : Link}

theorem of_pipes (h : l.Works)
    (hin : l'.incoming = l.incoming ∨ ∃ count, l'.incoming = l.incoming.drop count)
    (hout : l'.outgoing = l.outgoing ∨ ∃ bytes, l'.outgoing = l.outgoing.append bytes) :
    l'.Works := by
  have hincoming : l'.incoming.closed = false ∧ 0 < l'.incoming.capacity := by
    rcases hin with hin | ⟨_, hin⟩ <;> rw [hin] <;> exact ⟨h.incoming_open, h.incoming_wide⟩
  have houtgoing : l'.outgoing.closed = false ∧ 0 < l'.outgoing.capacity := by
    rcases hout with hout | ⟨_, hout⟩ <;> rw [hout] <;> exact ⟨h.outgoing_open, h.outgoing_wide⟩
  exact ⟨⟨hincoming.1, houtgoing.1⟩, hincoming.2, houtgoing.2⟩

theorem step (h : l.Works) (hstep : x.step? served now l = some (x', l')) : l'.Works := by
  cases hphase : x.phase with
  | «over» result =>
      rw [Exchange.step?, hphase] at hstep
      cases hstep
  | writing rest =>
      obtain ⟨hin, hout⟩ := Exchange.pipes_of_writing hphase hstep
      exact h.of_pipes (.inl hin) hout
  | reading =>
      obtain ⟨hin, hout⟩ := Exchange.pipes_of_reading hphase hstep
      exact h.of_pipes hin (.inl hout)

end Link.Works

theorem Link.works_make {capacity : Nat} (h : 0 < capacity) : (Link.make capacity).Works :=
  ⟨⟨rfl, rfl⟩, h, h⟩

namespace Speaker

variable {served : Identifier → Bool} {now : Nanoseconds} {count : Nat}
  {p p' near far near' far' : Speaker}

theorem works_step (h : p.link.Works) (hstep : p.step? served now = some p') : p'.link.Works := by
  obtain ⟨_, x, l, rfl, hnext⟩ := step_cases hstep
  exact h.step hnext

theorem works_speak (h : p.link.Works) (hstep : p.speak? count = some p') : p'.link.Works := by
  obtain ⟨_, outgoing, more, rfl, hclosed, hcapacity, _⟩ := speak_cases hstep
  exact ⟨⟨h.incoming_open, hclosed.trans h.outgoing_open⟩, h.incoming_wide,
    hcapacity ▸ h.outgoing_wide⟩

theorem works_carry (hnear : near.link.Works) (hfar : far.link.Works)
    (hstep : near.carry? count far = some (near', far')) : near'.link.Works ∧ far'.link.Works := by
  obtain ⟨l, m, rfl, rfl, hpass, hout, hin, _⟩ := carry_cases hstep
  obtain ⟨hl, hm⟩ := hpass.calm hnear.toCalm hfar.toCalm
  exact ⟨⟨hl, hpass.incoming_eq ▸ hnear.incoming_wide, hout ▸ hnear.outgoing_wide⟩,
    ⟨hm, hin ▸ hfar.incoming_wide, hpass.outgoing_eq ▸ hfar.outgoing_wide⟩⟩

/-! ### Every run comes to an end -/

def unsaid (p : Speaker) : Nat :=
  match p.exchange.phase with
  | .writing rest => rest.length
  | .reading => if p.exchange.dialed.isSome then 0 else handshakeLength
  | .over _ => 0

/-- What is left to do with the bytes of this side, and with those that have come to it. -/
def weight (p : Speaker) : Nat :=
  3 * (p.unsaid + p.more.length) + 2 * p.link.outgoing.count + p.link.incoming.count

/-- The exchange cannot take a step without writing or reading something. -/
structure Busy (p : Speaker) : Prop where
  writes : ∀ rest, p.exchange.phase = .writing rest →
    rest ≠ [] ∧ (p.exchange.dialed = none → p.exchange.theirs ≠ none)
  reads : p.exchange.phase = .reading → 0 < p.exchange.buffer.room

theorem Busy.of_writing {rest : Bytes} (hphase : p.exchange.phase = .writing rest)
    (hrest : rest ≠ [])
    (htheirs : p.exchange.dialed = none → p.exchange.theirs ≠ none) : p.Busy := by
  refine ⟨fun rest' hwriting => ?_, fun hreading => ?_⟩
  · cases hphase.symm.trans hwriting
    exact ⟨hrest, htheirs⟩
  · cases hphase.symm.trans hreading

theorem Busy.of_reading (hphase : p.exchange.phase = .reading)
    (hroom : 0 < p.exchange.buffer.room) :
    p.Busy := by
  refine ⟨fun rest hwriting => ?_, fun _ => hroom⟩
  cases hphase.symm.trans hwriting

theorem Busy.of_over {result : Except HandshakeError Handshake}
    (hphase : p.exchange.phase = .over result) : p.Busy := by
  refine ⟨fun rest hwriting => ?_, fun hreading => ?_⟩
  · cases hphase.symm.trans hwriting
  · cases hphase.symm.trans hreading

theorem unsaid_written {x : Exchange} {l : Link} {more : Bytes}
    (h : x.dialed = none → x.theirs ≠ none) : unsaid ⟨x.written now, l, more⟩ = 0 := by
  rw [Exchange.written]
  cases htheirs : x.theirs with
  | some theirs => rfl
  | none =>
      have hdialed : x.dialed.isSome = true := by
        cases hnone : x.dialed with
        | none => exact absurd htheirs (h hnone)
        | some infoHash => rfl
      simp [unsaid, hdialed]

theorem unsaid_received {x : Exchange} {h : Handshake} {l : Link} {more : Bytes} :
    unsaid ⟨x.received served now h, l, more⟩ ≤ if x.dialed.isSome then 0 else handshakeLength := by
  unfold Exchange.received
  cases x.dialed with
  | some infoHash =>
      dsimp only
      split <;> exact Nat.zero_le _
  | none =>
      dsimp only
      split
      · exact Nat.le_of_eq (Handshake.length_encode _)
      · exact Nat.zero_le _

theorem unsaid_receive {x : Exchange} {bytes : Bytes} {l : Link} {more : Bytes}
    (hphase : x.phase = .reading) (hbytes : bytes ≠ []) :
    unsaid ⟨x.receive served now (.data bytes), l, more⟩
      ≤ if x.dialed.isSome then 0 else handshakeLength := by
  rcases Dialogue.receive_cases served now hbytes with
    ⟨h, buffer, _, hreceive⟩ | ⟨_, hreceive | ⟨cause, hreceive⟩⟩
  · rw [hreceive]
    exact unsaid_received
  · simp only [hreceive, unsaid, hphase, Nat.le_refl]
  · rw [hreceive]
    exact Nat.zero_le _

theorem weight_write {rest : Bytes} (hphase : p.exchange.phase = .writing rest) (hbusy : p.Busy)
    (hworks : p.link.Works) (hstep : p.step? served now = some p') : p'.weight < p.weight := by
  obtain ⟨htime, x, l, rfl, hnext⟩ := step_cases hstep
  obtain ⟨hrest, htheirs⟩ := hbusy.writes rest hphase
  obtain ⟨left, outgoing, rfl, _, hbytes, hleft⟩ :=
    Exchange.step?_writing hphase hworks.outgoing_open htime hnext
  have hgrows : p.link.outgoing.count < outgoing.count :=
    Exchange.step?_writes hphase hrest hworks.outgoing_open htime hnext
  have hcount : outgoing.count + left.length = p.link.outgoing.count + rest.length := by
    rw [← Pipe.length_held, ← Pipe.length_held, ← List.length_append, hbytes, List.length_append]
  have hown : p.unsaid = rest.length := by rw [unsaid, hphase]
  have hunsaid : unsaid ⟨x, ⟨p.link.incoming, outgoing⟩, p.more⟩ ≤ left.length := by
    rcases hleft with ⟨rfl, rfl⟩ | ⟨_, rfl⟩
    · rw [unsaid_written htheirs]
      exact Nat.zero_le _
    · exact Nat.le_refl _
  simp only [weight]
  omega

theorem weight_read (hphase : p.exchange.phase = .reading) (hbusy : p.Busy) (hworks : p.link.Works)
    (hstep : p.step? served now = some p') : p'.weight < p.weight := by
  obtain ⟨htime, x, l, rfl, hnext⟩ := step_cases hstep
  obtain ⟨bytes, incoming, hbytes, _, rfl, _, hsplit, rfl⟩ := Exchange.step?_reading hphase
    (hbusy.reads hphase) htime
    (fun hclosed => Bool.noConfusion (hworks.incoming_open.symm.trans hclosed)) hnext
  have hown : p.unsaid = if p.exchange.dialed.isSome then 0 else handshakeLength := by
    rw [unsaid, hphase]
  have hunsaid : unsaid ⟨Exchange.receive served p.exchange now (.data bytes),
      ⟨incoming, p.link.outgoing⟩, p.more⟩ ≤ p.unsaid :=
    hown ▸ unsaid_receive hphase hbytes
  have hpos := List.length_pos_iff.mpr hbytes
  have hcount : bytes.length + incoming.count = p.link.incoming.count := by
    rw [← Pipe.length_held, ← Pipe.length_held, ← hsplit, List.length_append]
  simp only [weight]
  omega

theorem weight_step (hbusy : p.Busy) (hworks : p.link.Works)
    (hstep : p.step? served now = some p') :
    p'.weight < p.weight := by
  cases hphase : p.exchange.phase with
  | «over» result =>
      obtain ⟨_, _, _, _, hnext⟩ := step_cases hstep
      rw [Exchange.step?, hphase] at hnext
      cases hnext
  | writing rest => exact weight_write hphase hbusy hworks hstep
  | reading => exact weight_read hphase hbusy hworks hstep

theorem weight_speak (hstep : p.speak? count = some p') : p'.weight < p.weight := by
  obtain ⟨_, outgoing, more, rfl, _, _, _, hcount, hless⟩ := speak_cases hstep
  simp only [weight, unsaid]
  omega

theorem weight_carry (hstep : near.carry? count far = some (near', far')) :
    near'.weight + far'.weight < near.weight + far.weight := by
  obtain ⟨l, m, rfl, rfl, hpass, _, _, hcount, hless⟩ := carry_cases hstep
  simp only [weight, unsaid, hpass.incoming_eq, hpass.outgoing_eq]
  omega

/-! ### No run is stuck before its end -/

def InTime (now : Nanoseconds) (p : Speaker) : Prop :=
  p.exchange.result? = none → now < p.exchange.deadline.ceilMilliseconds

theorem step_of_incoming (hphase : p.exchange.phase = .reading) (htime : p.InTime now)
    (hheld : p.link.incoming.held ≠ []) : ∃ p', p.step? served now = some p' := by
  have hcount : p.link.incoming.count ≠ 0 := Nat.pos_iff_ne_zero.mp (Pipe.count_pos_iff.mpr hheld)
  rw [step?, if_pos (htime (by rw [Exchange.result?, hphase])), Exchange.step?]
  simp only [hphase]
  rw [Pipe.read?, if_neg hcount]
  exact ⟨_, rfl⟩

theorem carry_of_outgoing (hheld : near.link.outgoing.held ≠ [])
    (hopen : far.link.incoming.closed = false) (hroom : 0 < far.link.incoming.room) :
    ∃ out, near.carry? 1 far = some out := by
  have hcount : 1 ≤ near.link.outgoing.count := Pipe.count_pos_iff.mpr hheld
  have hroom' : 1 ≤ far.link.incoming.room := hroom
  simp [carry?, Passage.pass?, hcount, hroom', hopen]

theorem delivers (hphase : far.exchange.phase = .reading) (htime : far.InTime now)
    (hworks : far.link.Works) (hheld : far.link.incoming.held ++ near.link.outgoing.held ≠ []) :
    (∃ far', far.step? served now = some far') ∨ ∃ out, near.carry? 1 far = some out := by
  by_cases hempty : far.link.incoming.held = []
  · rw [hempty, List.nil_append] at hheld
    have hcount : far.link.incoming.count = 0 := by
      rw [← Pipe.length_held, hempty, List.length_nil]
    refine Or.inr (carry_of_outgoing hheld hworks.incoming_open ?_)
    rw [Pipe.room, hcount]
    exact hworks.incoming_wide
  · exact Or.inl (step_of_incoming hphase htime hempty)

/-- What is still to be written is written, or there is no room for it until something is carried
over or read. -/
theorem utters {rest : Bytes} (hphase : near.exchange.phase = .writing rest) (hrest : rest ≠ [])
    (htime : near.InTime now) (hworks : near.link.Works) (hphase' : far.exchange.phase = .reading)
    (htime' : far.InTime now) (hworks' : far.link.Works) :
    (∃ near', near.step? served now = some near')
      ∨ (∃ far', far.step? served now = some far') ∨ ∃ out, near.carry? 1 far = some out := by
  by_cases hroom : 0 < near.link.outgoing.room
  · obtain ⟨d, hstep, _⟩ := @Dialogue.step_of_writing served now ⟨near.exchange, near.link, [], []⟩
      rest hphase hrest hworks.outgoing_open hroom
    obtain ⟨out, hnext, _⟩ := Option.map_eq_some_iff.mp hstep
    rw [step?, if_pos (htime (by rw [Exchange.result?, hphase])), hnext]
    exact Or.inl ⟨_, rfl⟩
  · have hheld : near.link.outgoing.held ≠ [] := by
      rw [← Pipe.count_pos_iff]
      have hwide := hworks.outgoing_wide
      rw [Pipe.room] at hroom
      omega
    exact Or.inr (delivers hphase' htime' hworks' fun hnil => hheld (List.append_eq_nil_iff.mp hnil).2)

/-- What is missing of a handshake that is written as a whole is on the link. -/
theorem held_of_awaits {more s : Bytes} {h : Handshake}
    (hheard : far.exchange.Awaits far.link (near.link.outgoing.held ++ ([] ++ more)) (h.encode ++ s))
    (hmore : more.length ≤ s.length) : far.link.incoming.held ++ near.link.outgoing.held ≠ [] := by
  intro hnil
  obtain ⟨hin, hout⟩ := List.append_eq_nil_iff.mp hnil
  have hlength := congrArg List.length hheard.bytes_eq
  have hshort := hheard.short
  simp only [hin, hout, List.length_append, Handshake.length_encode, List.length_nil] at hlength
  omega

end Speaker

namespace Introduction

variable {served : Identifier → Bool} {infoHash dialerId acceptorId : Identifier} {x y : Bytes}
  {d d' : Introduction} {moves : List Move}

theorem Asking.busy {rest : Bytes} {p q : Speaker}
    (h : Asking infoHash dialerId acceptorId x y p q rest) : p.Busy ∧ q.Busy := by
  refine ⟨?_, .of_reading h.heard.reading (h.heard.fresh.room_pos h.heard.short)⟩
  rcases h.said with ⟨hwriting, hrest, _⟩ | ⟨hreading, _⟩
  · exact .of_writing hwriting hrest fun hnone => by
      rw [h.asks.dialed_eq] at hnone
      cases hnone
  · refine .of_reading hreading (h.fresh.room_pos ?_)
    rw [h.pending_eq]
    exact Nat.zero_lt_succ 67

theorem Answering.busy {rest : Bytes} {p q : Speaker}
    (h : Answering infoHash dialerId acceptorId x y p q rest) : p.Busy ∧ q.Busy := by
  refine ⟨.of_reading h.heard.reading (h.heard.fresh.room_pos h.heard.short), ?_⟩
  rcases h.said with ⟨hwriting, htheirs, hrest, _⟩ | ⟨hover, _⟩
  · exact .of_writing hwriting hrest fun _ => by
      rw [htheirs]
      exact nofun
  · exact .of_over hover

theorem Stands.busy (h : Stands infoHash dialerId acceptorId x y d) :
    d.dialer.Busy ∧ d.acceptor.Busy := by
  cases h with
  | asking rest h => exact h.busy
  | answering rest h => exact h.busy
  | met h => exact ⟨.of_over h.dialer_over, .of_over h.acceptor_over⟩

theorem exists_forth {now : Nanoseconds} (h : (∃ q', d.acceptor.step? served now = some q')
    ∨ ∃ out, d.dialer.carry? 1 d.acceptor
      = some out) : ∃ move d', d.move? served move = some d' := by
  rcases h with ⟨q', hstep⟩ | ⟨out, hstep⟩
  · exact ⟨.acceptorSteps now, _, by rw [move?, hstep]; rfl⟩
  · exact ⟨.forth 1, _, by rw [move?, hstep]; rfl⟩

theorem exists_back {now : Nanoseconds} (h : (∃ p', d.dialer.step? served now = some p')
    ∨ ∃ out, d.acceptor.carry? 1 d.dialer
      = some out) : ∃ move d', d.move? served move = some d' := by
  rcases h with ⟨p', hstep⟩ | ⟨out, hstep⟩
  · exact ⟨.dialerSteps now, _, by rw [move?, hstep]; rfl⟩
  · exact ⟨.back 1, _, by rw [move?, hstep]; rfl⟩

/-- As long as an exchange is not over something can be done, unless it is too late. -/
theorem Stands.goesOn {now : Nanoseconds} (h : Stands infoHash dialerId acceptorId x y d)
    (hdialer : d.dialer.link.Works) (hacceptor : d.acceptor.link.Works)
    (htime : d.dialer.InTime now) (htime' : d.acceptor.InTime now) :
    (d.dialer.exchange.result? ≠ none ∧ d.acceptor.exchange.result? ≠ none)
      ∨ ∃ move d', d.move? served move = some d' := by
  cases h with
  | asking rest h =>
      refine .inr ?_
      rcases h.said with ⟨hwriting, hrest, _⟩ | ⟨_, rfl, hmore⟩
      · rcases Speaker.utters hwriting hrest htime hdialer h.heard.reading htime' hacceptor with
          hstep | hnext
        · exact exists_back (.inl hstep)
        · exact exists_forth hnext
      · exact exists_forth (Speaker.delivers h.heard.reading htime' hacceptor
          (Speaker.held_of_awaits h.heard hmore))
  | answering rest h =>
      refine .inr ?_
      rcases h.said with ⟨hwriting, _, hrest, _⟩ | ⟨_, rfl, hmore⟩
      · rcases Speaker.utters hwriting hrest htime' hacceptor h.heard.reading htime hdialer with
          hstep | hnext
        · exact exists_forth (.inl hstep)
        · exact exists_back hnext
      · exact exists_back (Speaker.delivers h.heard.reading htime hdialer
          (Speaker.held_of_awaits h.heard hmore))
  | met h =>
      refine .inl ⟨?_, ?_⟩
      · rw [Exchange.result?, h.dialer_over]
        exact Option.some_ne_none _
      · rw [Exchange.result?, h.acceptor_over]
        exact Option.some_ne_none _

/-! ### Runs -/

structure Sound (infoHash dialerId acceptorId : Identifier) (x y : Bytes) (d : Introduction) :
    Prop where
  stands : Stands infoHash dialerId acceptorId x y d
  dialer_works : d.dialer.link.Works
  acceptor_works : d.acceptor.link.Works

def weight (d : Introduction) : Nat := d.dialer.weight + d.acceptor.weight

theorem Sound.move {move : Move} (h : Sound infoHash dialerId acceptorId x y d)
    (hserved : served infoHash = true) (hmove : d.move? served move = some d') :
    Sound infoHash dialerId acceptorId x y d' ∧ d'.weight < d.weight := by
  obtain ⟨hdialer, hacceptor⟩ := h.stands.busy
  cases move with
  | dialerSteps now =>
      obtain ⟨p', hstep, rfl⟩ := Option.map_eq_some_iff.mp hmove
      exact ⟨⟨h.stands.dialerSteps h.dialer_works.toCalm hstep, Speaker.works_step h.dialer_works hstep,
        h.acceptor_works⟩,
        Nat.add_lt_add_right (Speaker.weight_step hdialer h.dialer_works hstep) _⟩
  | acceptorSteps now =>
      obtain ⟨q', hstep, rfl⟩ := Option.map_eq_some_iff.mp hmove
      exact ⟨⟨h.stands.acceptorSteps hserved h.acceptor_works.toCalm hstep, h.dialer_works,
        Speaker.works_step h.acceptor_works hstep⟩,
        Nat.add_lt_add_left (Speaker.weight_step hacceptor h.acceptor_works hstep) _⟩
  | dialerSpeaks count =>
      obtain ⟨p', hstep, rfl⟩ := Option.map_eq_some_iff.mp hmove
      exact ⟨⟨h.stands.dialerSpeaks hstep, Speaker.works_speak h.dialer_works hstep, h.acceptor_works⟩,
        Nat.add_lt_add_right (Speaker.weight_speak hstep) _⟩
  | acceptorSpeaks count =>
      obtain ⟨q', hstep, rfl⟩ := Option.map_eq_some_iff.mp hmove
      exact ⟨⟨h.stands.acceptorSpeaks hstep, h.dialer_works,
        Speaker.works_speak h.acceptor_works hstep⟩,
        Nat.add_lt_add_left (Speaker.weight_speak hstep) _⟩
  | forth count =>
      obtain ⟨⟨p', q'⟩, hstep, rfl⟩ := Option.map_eq_some_iff.mp hmove
      obtain ⟨hp, hq⟩ := Speaker.works_carry h.dialer_works h.acceptor_works hstep
      exact ⟨⟨h.stands.forth hstep, hp, hq⟩, Speaker.weight_carry hstep⟩
  | back count =>
      obtain ⟨⟨q', p'⟩, hstep, rfl⟩ := Option.map_eq_some_iff.mp hmove
      obtain ⟨hq, hp⟩ := Speaker.works_carry h.acceptor_works h.dialer_works hstep
      refine ⟨⟨h.stands.back hstep, hp, hq⟩, ?_⟩
      have hless := Speaker.weight_carry hstep
      simp only [weight]
      omega

theorem Sound.run (h : Sound infoHash dialerId acceptorId x y d) (hserved : served infoHash = true)
    (hrun : run? served moves d = some d') :
    Sound infoHash dialerId acceptorId x y d' ∧ moves.length + d'.weight ≤ d.weight := by
  induction moves generalizing d with
  | nil =>
      cases hrun
      exact ⟨h, Nat.le_of_eq (Nat.zero_add _)⟩
  | cons move moves ih =>
      obtain ⟨next, hnext, hrest⟩ := Option.bind_eq_some_iff.mp hrun
      obtain ⟨hsound, hless⟩ := h.move hserved hnext
      obtain ⟨hsound', hbound⟩ := ih hsound hrest
      refine ⟨hsound', ?_⟩
      rw [List.length_cons]
      omega

theorem sound_start (infoHash dialerId acceptorId : Identifier) {capacity : Nat}
    (hcapacity : 0 < capacity) (timeout timeout' : Nanoseconds) (limit limit' : UInt32)
    (now now' : Nanoseconds) (x y : Bytes) :
    Sound infoHash dialerId acceptorId x y (.start (.outbound infoHash dialerId timeout limit now)
      (.inbound acceptorId timeout' limit' now') capacity x y) where
  stands := .asking _
    (asking_start infoHash dialerId acceptorId capacity timeout timeout' limit limit' now now' x y)
  dialer_works := Link.works_make hcapacity
  acceptor_works := Link.works_make hcapacity

theorem weight_start (infoHash dialerId acceptorId : Identifier) (capacity : Nat)
    (timeout timeout' : Nanoseconds) (limit limit' : UInt32) (now now' : Nanoseconds)
    (x y : Bytes) :
    weight (.start (.outbound infoHash dialerId timeout limit now)
      (.inbound acceptorId timeout' limit' now') capacity x y)
      = 3 * (handshakeLength + x.length) + 3 * (handshakeLength + y.length) := by
  simp [weight, Speaker.weight, Speaker.unsaid, start, Exchange.outbound,
    Exchange.inbound, Link.make,
    Pipe.make]

/-- Whatever the other side and the network do, the side that was dialed is silent until a handshake
for a served torrent has come and then says nothing but its answer, and the side that dialed takes
only an answer for its torrent. Between the two of them, however the bytes are cut, both exchanges
end well after a bounded number of moves unless one is late, and what is not read by then is what
the other side says after its handshake. -/
theorem handshakes_meet (served : Identifier → Bool) (infoHash dialerId acceptorId : Identifier)
    (timeout timeout' : Nanoseconds) (limit limit' : UInt32) (now now' : Nanoseconds) :
    (∀ l events d, Dialogue.run? served events
        (.start (.inbound acceptorId timeout' limit' now') l) = some d
          → d.Discreet served acceptorId)
      ∧ (∀ l events d, Dialogue.run? served events
          (.start (.outbound infoHash dialerId timeout limit now) l) = some d →
        d.Particular infoHash dialerId)
      ∧ (served infoHash = true → ∀ capacity, 0 < capacity → ∀ x y moves d,
        run? served moves (.start (.outbound infoHash dialerId timeout limit now)
          (.inbound acceptorId timeout' limit' now') capacity x y) = some d →
        (∀ result, d.dialer.exchange.result? = some result →
            result = .ok (.plain infoHash acceptorId) ∧ d.dialer.unread d.acceptor = y)
          ∧ (∀ result, d.acceptor.exchange.result? = some result →
            result = .ok (.plain infoHash dialerId) ∧ d.acceptor.unread d.dialer = x)
          ∧ moves.length ≤ 3 * (2 * handshakeLength + x.length + y.length)
          ∧ ∀ now, d.dialer.InTime now → d.acceptor.InTime now →
            (d.dialer.exchange.result? ≠ none ∧ d.acceptor.exchange.result? ≠ none)
              ∨ ∃ move d', d.move? served move = some d') := by
  refine ⟨fun l events d hrun => (Dialogue.Host.run served acceptorId hrun).discreet,
    fun l events d hrun => (Dialogue.Caller.run hrun).particular,
    fun hserved capacity hcapacity x y moves d hrun => ?_⟩
  obtain ⟨hsound, hbound⟩ :=
    (sound_start infoHash dialerId acceptorId hcapacity timeout timeout' limit
    limit' now now' x y).run hserved hrun
  refine ⟨fun result => hsound.stands.dialer_ends, fun result => hsound.stands.acceptor_ends, ?_,
    fun now => hsound.stands.goesOn hsound.dialer_works hsound.acceptor_works⟩
  rw [weight_start] at hbound
  omega

/-- What is said after the handshakes is read together with the ends of them. -/
theorem handshakes_meet_merged :
    let served := fun infoHash => decide (infoHash = Identifier.zero)
    let peerId := Identifier.ofStart [1]
    ∃ d, run? served [.dialerSteps 0, .forth 60, .acceptorSteps 0, .dialerSpeaks 2, .forth 10,
        .acceptorSteps 0, .acceptorSteps 0, .acceptorSpeaks 3, .back 70, .dialerSteps 0]
        (.start (.outbound .zero .zero 1_000_000 16384 0) (.inbound peerId 1_000_000 16384 0) 100
          [1, 2] [3, 4, 5]) = some d
      ∧ d.dialer.exchange.result? = some (.ok (.plain .zero peerId))
      ∧ d.dialer.unread d.acceptor = [3, 4, 5]
      ∧ d.acceptor.exchange.result? = some (.ok (.plain .zero .zero))
      ∧ d.acceptor.unread d.dialer = [1, 2] := by
  intro served peerId
  have hdone : (run? served [.dialerSteps 0, .forth 60, .acceptorSteps 0, .dialerSpeaks 2, .forth 10,
      .acceptorSteps 0, .acceptorSteps 0, .acceptorSpeaks 3, .back 70, .dialerSteps 0]
      (.start (.outbound .zero .zero 1_000_000 16384 0) (.inbound peerId 1_000_000 16384 0) 100
        [1, 2] [3, 4, 5])).any (fun d => d.dialer.exchange.result?.isSome
          && d.acceptor.exchange.result?.isSome) = true := by
    decide +kernel
  obtain ⟨d, hrun, hresults⟩ := (Option.any_eq_true _ _).mp hdone
  rw [Bool.and_eq_true] at hresults
  obtain ⟨result, hresult⟩ := Option.isSome_iff_exists.mp hresults.1
  obtain ⟨result', hresult'⟩ := Option.isSome_iff_exists.mp hresults.2
  obtain ⟨_, _, hmeets⟩ :=
    handshakes_meet served .zero .zero peerId 1_000_000 1_000_000 16384 16384 0 0
  obtain ⟨hdialer, hacceptor, _⟩ := hmeets rfl 100 (by decide) _ _ _ _ hrun
  obtain ⟨rfl, hunread⟩ := hdialer result hresult
  obtain ⟨rfl, hunread'⟩ := hacceptor result' hresult'
  exact ⟨d, hrun, hresult, hunread, hresult', hunread'⟩

end Introduction

end TorrentCore
