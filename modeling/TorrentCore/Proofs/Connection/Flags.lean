import TorrentCore.Connection.State

/-!
# Setting a flag

What the peer says and what is said to it sets one of the four flags of a connection. Whichever it
is, nothing changes but the flags and the notes about when they changed.
-/

namespace TorrentCore

namespace Connection

/-- A connection of which nothing but the flags and the notes about them may have changed. -/
inductive Flagged (c : Connection) : Connection → Prop
  | set (amChoked peerChoked amInterested peerInterested : Bool)
      (lastChokeChange lastInterestChange : Option Nanoseconds) (changes : Nat) :
      Flagged c { c with
        amChoked := amChoked
        peerChoked := peerChoked
        amInterested := amInterested
        peerInterested := peerInterested
        lastChokeChange := lastChokeChange
        lastInterestChange := lastInterestChange
        changes := changes }

theorem flagged_setAmChoked (c : Connection) (now : Nanoseconds) (value : Bool) :
    c.Flagged (c.setAmChoked now value) := by
  unfold setAmChoked
  split <;> exact .set ..

theorem flagged_setPeerChoked (c : Connection) (now : Nanoseconds) (value : Bool) :
    c.Flagged (c.setPeerChoked now value) := by
  unfold setPeerChoked
  split <;> exact .set ..

theorem flagged_setAmInterested (c : Connection) (now : Nanoseconds) (value : Bool) :
    c.Flagged (c.setAmInterested now value) := by
  unfold setAmInterested
  split <;> exact .set ..

theorem flagged_setPeerInterested (c : Connection) (now : Nanoseconds) (value : Bool) :
    c.Flagged (c.setPeerInterested now value) := by
  unfold setPeerInterested
  split <;> exact .set ..

theorem flagged_noteSent (c : Connection) (now : Nanoseconds) (m : Message) :
    c.Flagged (c.noteSent now m) := by
  cases m with
  | interested => exact flagged_setAmInterested c now true
  | notInterested => exact flagged_setAmInterested c now false
  | choke => exact flagged_setPeerChoked c now true
  | unchoke => exact flagged_setPeerChoked c now false
  | keepAlive | has _ | bitfield _ | request _ | cancel _ | piece _ _ _ => exact .set ..

end Connection

end TorrentCore
