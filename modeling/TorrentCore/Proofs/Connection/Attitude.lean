import TorrentCore.Proofs.Connection.Hearing

/-!
# Choking and interest at one end of a link

A connection keeps four flags: two say what it has told the peer, and two what the peer has told it.
Its own attitude is that of the messages its queue has accepted, and the peer's attitude is that of
the messages its reader has taken. Each step of a connection either leaves the flags alone or is one
of these two things, and it notes its time exactly when a flag comes out different.
-/

namespace TorrentCore

/-- Whether one side chokes the other, and whether it wants something from it. -/
structure Attitude where
  choking : Bool
  interested : Bool
deriving DecidableEq

def Message.isNeutral : Message → Bool
  | .choke | .unchoke | .interested | .notInterested => false
  | _ => true

namespace Attitude

def fresh : Attitude := ⟨true, false⟩

def next (a : Attitude) : Message → Attitude
  | .choke => { a with choking := true }
  | .unchoke => { a with choking := false }
  | .interested => { a with interested := true }
  | .notInterested => { a with interested := false }
  | _ => a

def ofMessages (messages : List Message) : Attitude := messages.foldl next fresh

variable {m : Message} {messages script : List Message}

theorem next_of_isNeutral (a : Attitude) (h : m.isNeutral = true) : a.next m = a := by
  cases m with
  | choke | unchoke | interested | notInterested => simp [Message.isNeutral] at h
  | _ => rfl

@[simp] theorem ofMessages_append_singleton :
    ofMessages (messages ++ [m]) = (ofMessages messages).next m := by
  simp only [ofMessages, List.foldl_append, List.foldl_cons, List.foldl_nil]

theorem ofMessages_script (h : WithKeepAlives messages script) :
    ofMessages script = ofMessages messages := by
  unfold ofMessages
  generalize fresh = a
  induction h generalizing a with
  | nil => rfl
  | message m _ ih => exact ih (a.next m)
  | keepAlive _ ih => exact ih a

end Attitude

/-- The flags of a connection, with the notes of when they changed last. -/
structure Bearing where
  own : Attitude
  theirs : Attitude
  lastChokeChange : Option Nanoseconds
  lastInterestChange : Option Nanoseconds

/-- Of a flag that has changed the time was noted, and of no other. -/
def Bearing.Dated (b b' : Bearing) (time : Option Nanoseconds) : Prop :=
  (b'.lastChokeChange
      = if b.own.choking = b'.own.choking ∧ b.theirs.choking = b'.theirs.choking
        then b.lastChokeChange else time)
    ∧ b'.lastInterestChange
      = if b.own.interested = b'.own.interested ∧ b.theirs.interested = b'.theirs.interested
        then b.lastInterestChange else time

/-- What has become of the flags, given what was sent and what was taken. -/
structure Bearing.Follows (b b' : Bearing) (time : Option Nanoseconds)
    (sent taken : Option Message) : Prop where
  own_eq : b'.own = sent.elim b.own b.own.next
  theirs_eq : b'.theirs = taken.elim b.theirs b.theirs.next
  dated : b.Dated b' time

namespace Bearing

theorem dated_refl (b : Bearing) (time : Option Nanoseconds) : b.Dated b time := by
  simp [Dated]

theorem follows_refl (b : Bearing) (time : Option Nanoseconds) : b.Follows b time none none :=
  ⟨rfl, rfl, b.dated_refl time⟩

theorem Follows.neutral {b b' : Bearing} {time : Option Nanoseconds} {m : Message}
    (h : b.Follows b' time none none) (hm : m.isNeutral = true) :
    b.Follows b' time none (some m) := by
  refine ⟨h.own_eq, ?_, h.dated⟩
  rw [Option.elim_some, Attitude.next_of_isNeutral _ hm]
  exact h.theirs_eq

end Bearing

namespace Connection

def bearing (c : Connection) : Bearing :=
  ⟨⟨c.peerChoked, c.amInterested⟩, ⟨c.amChoked, c.peerInterested⟩, c.lastChokeChange,
    c.lastInterestChange⟩

variable (c : Connection) (now : Nanoseconds) (value : Bool)

theorem bearing_setAmChoked : (c.setAmChoked now value).bearing
    = { c.bearing with
        theirs := ⟨value, c.peerInterested⟩
        lastChokeChange := if c.amChoked = value then c.lastChokeChange else some now } := by
  unfold setAmChoked
  split
  · next hsame => simp [bearing, hsame]
  · rfl

theorem bearing_setPeerInterested : (c.setPeerInterested now value).bearing
    = { c.bearing with
        theirs := ⟨c.amChoked, value⟩
        lastInterestChange := if c.peerInterested = value then c.lastInterestChange
          else some now } := by
  unfold setPeerInterested
  split
  · next hsame => simp [bearing, hsame]
  · rfl

theorem bearing_setPeerChoked : (c.setPeerChoked now value).bearing
    = { c.bearing with
        own := ⟨value, c.amInterested⟩
        lastChokeChange := if c.peerChoked = value then c.lastChokeChange else some now } := by
  unfold setPeerChoked
  split
  · next hsame => simp [bearing, hsame]
  · rfl

theorem bearing_setAmInterested : (c.setAmInterested now value).bearing
    = { c.bearing with
        own := ⟨c.peerChoked, value⟩
        lastInterestChange := if c.amInterested = value then c.lastInterestChange
          else some now } := by
  unfold setAmInterested
  split
  · next hsame => simp [bearing, hsame]
  · rfl

theorem follows_noteSent (m : Message) :
    c.bearing.Follows (c.noteSent now m).bearing (some now) (some m) none := by
  cases m with
  | choke | unchoke =>
      rw [noteSent, bearing_setPeerChoked]
      refine ⟨rfl, rfl, ?_, ?_⟩ <;> simp [bearing]
  | interested | notInterested =>
      rw [noteSent, bearing_setAmInterested]
      refine ⟨rfl, rfl, ?_, ?_⟩ <;> simp [bearing]
  | _ => exact ⟨rfl, rfl, c.bearing.dated_refl _⟩

end Connection

namespace Endpoint

open Connection

variable {e e' : Endpoint} {now : Nanoseconds} {m : Message}

theorem follows_apply (h : e.apply now m = .ok e') :
    e.connection.bearing.Follows e'.connection.bearing (some now) none (some m) := by
  cases m with
  | choke | unchoke =>
      cases h
      rw [bearing_setAmChoked]
      refine ⟨rfl, rfl, ?_, ?_⟩ <;> simp [bearing]
  | interested | notInterested =>
      cases h
      rw [bearing_setPeerInterested]
      refine ⟨rfl, rfl, ?_, ?_⟩ <;> simp [bearing]
  | keepAlive | request _ | cancel _ | piece _ _ _ =>
      cases h
      exact (e.connection.bearing.follows_refl _).neutral rfl
  | has index =>
      cases h
      have hsame : (e.applyHave index.toNat).connection.bearing = e.connection.bearing := by
        unfold applyHave
        split <;> rfl
      rw [hsame]
      exact (e.connection.bearing.follows_refl _).neutral rfl
  | bitfield bits =>
      rw [apply, applyBitfield] at h
      split at h
      · cases h
        exact (e.connection.bearing.follows_refl _).neutral rfl
      · cases h

theorem isNeutral_of_apply_error {cause : Error} (h : e.apply now m = .error cause) :
    m.isNeutral = true := by
  cases m with
  | choke | unchoke | interested | notInterested => simp [apply] at h
  | _ => rfl

theorem follows_receive (h : e.receive? now = some e') :
    e.connection.bearing.Follows e'.connection.bearing (some now) none e.dispatches? := by
  unfold receive? at h
  simp only at h
  split at h
  · cases h
  next hrunning =>
  rw [Bool.not_eq_true', Bool.not_eq_false] at hrunning
  rw [dispatches?, if_pos hrunning]
  have hsame : ∀ c : Connection, c.bearing = e.connection.bearing →
      e.connection.bearing.Follows c.bearing (some now) none none := by
    intro c hc
    rw [hc]
    exact e.connection.bearing.follows_refl _
  cases hphase : e.connection.reader with
  | decoding =>
      rw [hphase] at h
      simp only at h ⊢
      split at h
      · next m rest hfront =>
        rw [hfront]
        split at h
        · next happly =>
          cases h
          have hfollows := follows_apply happly
          exact hfollows
        · next happly =>
          cases h
          exact (hsame _ rfl).neutral (isNeutral_of_apply_error happly)
      · next hfront =>
        rw [hfront]
        cases h
        exact hsame _ rfl
      · next hfront =>
        rw [hfront]
        cases h
        exact hsame _ rfl
  | reading _ | offeringBlock _ | offeringUpload _ =>
      -- Nothing is taken out of the buffer.
      rw [hphase] at h
      simp only at h
      repeat' split at h
      all_goals cases h
      all_goals exact hsame _ rfl

theorem bearing_transmit (h : e.transmit? now = some e') :
    e'.connection.bearing = e.connection.bearing := by
  unfold transmit? at h
  simp only at h
  repeat' split at h
  all_goals cases h
  all_goals rfl

theorem bearing_stop (h : e.stop? = some e') : e'.connection.bearing = e.connection.bearing := by
  unfold stop? at h
  split at h <;> cases h
  rfl

theorem bearing_start (c : Connection) : (c.start now).bearing = c.bearing := by
  unfold Connection.start
  split <;> rfl

theorem follows_sent {late : Bool} {p : Parcel} (h : e.send now late p = .sent e') :
    e.connection.bearing.Follows e'.connection.bearing (some now) p.message none := by
  obtain ⟨queue, -, rfl⟩ := send_eq_sent h
  rw [accept]
  cases p.message with
  | none => exact e.connection.bearing.follows_refl _
  | some m => exact follows_noteSent { e.connection with queue := queue } now m

end Endpoint

end TorrentCore
