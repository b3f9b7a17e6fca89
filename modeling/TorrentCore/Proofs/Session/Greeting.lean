import TorrentCore.Proofs.Connection.Candor
import TorrentCore.Proofs.Session.Announcing
import TorrentCore.Proofs.Session.Pausing

/-!
# Greeting a peer

A bit field takes the place of everything that was told before, so it may not come behind the
announcement of a piece that was marked after it was made. That is why the requester stands in line
for its place when the bit field is made: `Stance` says what was told and what is still to be told
at each step of the greeting.
-/

namespace TorrentCore

namespace Session

variable {start s s' : Session} {past : List (Nanoseconds × Event)} {now : Nanoseconds}
  {event : Event} {number index : Nat}

/-- The peer of a connection announced the piece before it was marked. -/
def FirstAnnounced (start : Session) (past : List (Nanoseconds × Event)) (number index : Nat) :
    Prop :=
  Happened start past fun earlier s _ s' => s.owned.contains index = false
    ∧ s'.owned.contains index = true ∧ Announced start earlier number index

theorem FirstAnnounced.announced (h : FirstAnnounced start past number index) :
    Announced start past number index := by
  obtain ⟨earlier, later, _, _, _, _, rfl, _, _, _, _, hannounced⟩ := h
  exact Happened.later hannounced _

/-- The piece waits to be announced over this connection. -/
def Waits (s : Session) (number index : Nat) : Prop :=
  ∃ a ∈ s.announcements, a.number = number ∧ a.parcel.Carries (.has (UInt32.ofNat index))

/-- Whatever is owned was told of, waits to be announced, or was first announced by the peer. -/
def Covers (start : Session) (past : List (Nanoseconds × Event)) (s : Session) (number : Nat)
    (told : Nat → Prop) : Prop :=
  ∀ index, s.owned.contains index = true →
    told index ∨ s.Waits number index ∨ FirstAnnounced start past number index

variable {told told' : Nat → Prop}

theorem Covers.later (h : Covers start past s number told) (howned : s'.owned = s.owned)
    (htold : ∀ index, told index → told' index)
    (hwaits : ∀ index < s.owned.pieceCount, s.Waits number index →
      s'.Waits number index ∨ told' index) :
    Covers start (past ++ [(now, event)]) s' number told' := by
  intro index hindex
  rw [howned] at hindex
  rcases h index hindex with h | h | h
  · exact Or.inl (htold index h)
  · exact (hwaits index (Bitfield.lt_of_contains hindex) h).elim (fun h => Or.inr (Or.inl h)) Or.inl
  · exact Or.inr (Or.inr (Happened.later h _))

theorem Covers.gain {new : List Announcement} {m : Member} (hequipped : Equipped start past s)
    (hpast : run? past start = some s) (hstep : s.happen? now event = some s')
    (hm : s.members.get? number = some m) (hlive : m.isLive = true)
    (hannounces : s.Announces index new s') (h : Covers start past s number told) :
    Covers start (past ++ [(now, event)]) s' number told := by
  have hwell := hequipped.fits.wellFormed
  have hnew : s'.owned.contains index = true := by
    rw [hannounces.owned_eq, Bitfield.contains_insert hwell hannounces.lt, decide_eq_true rfl,
      Bool.or_true]
  have hboard : s'.announcements = s.announcements ++ new :=
    congrArg Board.announcements hannounces.board_eq
  intro other hother
  rw [hannounces.owned_eq, Bitfield.contains_insert hwell hannounces.lt, Bool.or_eq_true,
    decide_eq_true_eq] at hother
  rcases hother with hold | rfl
  · rcases h other hold with h | ⟨a, ha, hnumber, hcarries⟩ | h
    · exact Or.inl h
    · exact Or.inr (Or.inl ⟨a, hboard ▸ List.mem_append_left _ ha, hnumber, hcarries⟩)
    · exact Or.inr (Or.inr (Happened.later h _))
  · refine Or.inr ?_
    cases hpieces : m.connection.pieces.contains other with
    | true =>
        have hrecord := hequipped.told number (standing m.connection)
          (congrArg (Option.map fun m : Member => standing m.connection) hm)
        exact Or.inr (happened_last hpast hstep
          ⟨hannounces.missing, hnew, hrecord.announced other hpieces⟩)
    | false =>
        rw [Member.isLive, Bool.and_eq_true, Bool.not_eq_true'] at hlive
        have hlisted := hequipped.listsLive number (duty m) (duty_of_member hm)
          (Connection.status_of_isRunning hlive.1) hlive.2
        have hmem : number ∈ s.peers.values :=
          List.mem_map.mpr ⟨_, Table.mem_of_get? hlisted, rfl⟩
        obtain ⟨a, ha, hnumber⟩ := hannounces.reaches number hmem m hm hpieces
        exact Or.inl ⟨a, hboard ▸ List.mem_append_right _ ha, hnumber,
          hannounces.carries hequipped.clean a ha⟩

end Session

/-! ### Stances -/

def Requester.hasGreeted : Requester → Bool
  | .greeting | .unchoking | .sending _ .unchoking | .sending _ .awaitingPieces => false
  | _ => true

/-- How a requester stands with its peer: what was told to it and what is still to be told.
`ahead` are the pieces that may be announced before what the requester waits to send. A
connection that is not `live` any more may not have told everything, but it says nothing that
takes back what it told. -/
inductive Stance (live : Prop) (covers : (Nat → Prop) → Prop) (owned : Bitfield)
    (ahead : Nat → Prop) (accepted : List Message) : Requester → Prop
  | greeting : Stance live covers owned ahead accepted .greeting
  | introducing (p : Parcel) (known : Bitfield) (hcarries : p.Carries (.bitfield known.bytes))
      (hwell : known.WellFormed) (htrimmed : known.Trimmed)
      (hcount : known.pieceCount = owned.pieceCount)
      (howned : ∀ index, known.contains index = true → owned.contains index = true)
      (htold : ∀ index < owned.pieceCount, TellOf accepted index → known.contains index = true)
      (hahead : ∀ index < owned.pieceCount, ahead index → known.contains index = true)
      (hcovers : live → covers fun index => known.contains index = true) :
      Stance live covers owned ahead accepted (.sending p .unchoking)
  | unchoking (hcovers : live → covers (TellOf accepted)) :
      Stance live covers owned ahead accepted .unchoking
  | offering (p : Parcel) (hcarries : p.Carries .unchoke) (hcovers : live → covers (TellOf accepted)) :
      Stance live covers owned ahead accepted (.sending p .awaitingPieces)
  | settled (r : Requester) (hsettled : r.isSettled = true)
      (htold : live → covers (TellOf accepted) ∧ .unchoke ∈ accepted) :
      Stance live covers owned ahead accepted r
  | asking (p : Parcel) (m : Message) (after : Requester) (hcarries : p.Carries m)
      (hasking : m.IsAsking) (hafter : after.isSettled = true)
      (htold : live → covers (TellOf accepted) ∧ .unchoke ∈ accepted) :
      Stance live covers owned ahead accepted (.sending p after)

namespace Stance

variable {live live' : Prop} {covers covers' : (Nat → Prop) → Prop} {owned owned' : Bitfield}
  {ahead ahead' : Nat → Prop} {accepted : List Message} {r : Requester}

/-- Something is said by somebody else. If the requester waits it comes before it, and so does what
it tells of. -/
theorem hear (h : Stance live covers owned ahead accepted r) (said : List Message)
    (hlive : live' → live) (hcount : owned'.pieceCount = owned.pieceCount)
    (hgrows : ∀ index, owned.contains index = true → owned'.contains index = true)
    (hcovers : live' → ∀ told told' : Nat → Prop, (∀ index, told index → told' index) →
      (∀ index < owned.pieceCount, TellOf said index → told' index) → covers told → covers' told')
    (hahead : ∀ index, ahead' index → ahead index)
    (hturn : r.isSending = true → ∀ index < owned.pieceCount, TellOf said index → ahead index) :
    Stance live' covers' owned' ahead' (accepted ++ said) r := by
  have htold : ∀ index, TellOf accepted index → TellOf (accepted ++ said) index := fun index h =>
    tellOf_append.mpr (Or.inl h)
  have hsaid : ∀ index < owned.pieceCount, TellOf said index → TellOf (accepted ++ said) index :=
    fun index _ h => tellOf_append.mpr (Or.inr h)
  have hcoversTold : (live → covers (TellOf accepted)) →
      live' → covers' (TellOf (accepted ++ said)) := fun hall hlive' =>
    hcovers hlive' _ _ htold hsaid (hall (hlive hlive'))
  have hgreeted : (live → covers (TellOf accepted) ∧ .unchoke ∈ accepted) →
      live' → covers' (TellOf (accepted ++ said)) ∧ .unchoke ∈ accepted ++ said := fun h hlive' =>
    ⟨hcoversTold (fun hlive => (h hlive).1) hlive', List.mem_append_left _ (h (hlive hlive')).2⟩
  cases h with
  | greeting => exact .greeting
  | introducing p known hcarries hwell htrimmed hknown howned hbefore hwaiting hall =>
      have hnews : ∀ index < owned.pieceCount, TellOf said index → known.contains index = true :=
        fun index hindex h => hwaiting index hindex (hturn rfl index hindex h)
      refine .introducing p known hcarries hwell htrimmed (hknown.trans hcount.symm)
        (fun index h => hgrows index (howned index h)) (fun index hindex h => ?_)
        (fun index hindex h => hwaiting index (hcount ▸ hindex) (hahead index h))
        fun hlive' => hcovers hlive' _ _ (fun _ h => h) hnews (hall (hlive hlive'))
      rw [hcount] at hindex
      exact (tellOf_append.mp h).elim (hbefore index hindex) (hnews index hindex)
  | unchoking hall => exact .unchoking (hcoversTold hall)
  | offering p hcarries hall => exact .offering p hcarries (hcoversTold hall)
  | settled r hsettled hall => exact .settled r hsettled (hgreeted hall)
  | asking p m after hcarries hasking hafter hall =>
      exact .asking p m after hcarries hasking hafter (hgreeted hall)

theorem of_isSettled (h : Stance live covers owned ahead accepted r) (hsettled : r.isSettled = true)
    (hlive : live) : covers (TellOf accepted) ∧ .unchoke ∈ accepted := by
  cases h with
  | settled r _ htold => exact htold hlive
  | _ => cases hsettled

end Stance

namespace Session

variable {live live' : Prop} {accepted : List Message} {m m' : Member} {r : Requester}
  {ahead : Nat → Prop}

/-- How a requester that goes on by itself stands after that. It is first in line for what it is
about to send, behind the announcements that wait already. -/
theorem stance_of_goes (hequipped : Equipped start past s) (hcandid : Candid s.owned accepted)
    (hstance : Stance live (Covers start past s number) s.owned ahead accepted m.requester)
    (hlive : live' → live) (hgoes : s.Goes m r) (howned : s'.owned = s.owned)
    (hannouncements : s'.announcements = s.announcements) :
    Stance live' (Covers start (past ++ [(now, event)]) s' number) s'.owned (s'.Waits number) accepted
      r := by
  have hwaits : ∀ index, s.Waits number index → s'.Waits number index := by
    intro index h
    rw [Waits, hannouncements]
    exact h
  have hlater : ∀ {told : Nat → Prop}, Covers start past s number told →
      Covers start (past ++ [(now, event)]) s' number told := fun h =>
    h.later howned (fun _ h => h) fun index _ h => Or.inl (hwaits index h)
  have hpack := fun message => Hub.carries_pack hequipped.clean message
  have hsettled : m.requester.isSettled = true → live' →
      Covers start (past ++ [(now, event)]) s' number (TellOf accepted) ∧ .unchoke ∈ accepted :=
    fun hbefore hlive' => (hstance.of_isSettled hbefore (hlive hlive')).imp_left hlater
  cases hgoes with
  | silently _ hnone =>
      refine .unchoking fun _ index hindex => ?_
      rw [howned, Bitfield.not_contains_of_hasNone hnone] at hindex
      cases hindex
  | greets _ _ =>
      refine .introducing _ s.owned (hpack _) hequipped.fits.wellFormed hequipped.trimmed
        (by rw [howned]) (fun index h => howned ▸ h) ?_ ?_ ?_
      · rw [howned]
        exact hcandid.truthful
      · rintro index hindex ⟨a, ha, _, hcarries⟩
        rw [hannouncements] at ha
        obtain ⟨told, _, htold, _, hsame⟩ := hequipped.announced ha
        rw [hsame index (by rwa [← howned]) hcarries]
        exact htold
      · exact fun _ index hindex => Or.inl (howned ▸ hindex)
  | unchokes hbefore =>
      rw [hbefore] at hstance
      cases hstance with
      | unchoking hcovers =>
          exact .offering _ (hpack _) fun hlive' => hlater (hcovers (hlive hlive'))
      | settled _ hsettled => cases hsettled
  | onward r hbefore hafter => exact .settled r hafter (hsettled hbefore)
  | asks message after hbefore hasking hafter =>
      exact .asking _ message after (hpack _) hasking hafter (hsettled hbefore)

theorem stance_of_said {p : Parcel} {after : Requester} (hequipped : Equipped start past s)
    (hcandid : Candid s.owned accepted)
    (hstance : Stance live (Covers start past s number) s.owned ahead accepted (.sending p after))
    (hlive : live' → live) (howned : s'.owned = s.owned)
    (hannouncements : s'.announcements = s.announcements) :
    ∃ message, p.packet.bytes = message.encode ∧ Candid s.owned (accepted ++ [message])
      ∧ Stance live' (Covers start (past ++ [(now, event)]) s' number) s'.owned (s'.Waits number)
        (accepted ++ [message]) after := by
  have hlater : ∀ {told told' : Nat → Prop}, (∀ index, told index → told' index) →
      Covers start past s number told → Covers start (past ++ [(now, event)]) s' number told' := by
    intro told told' htold h
    refine h.later howned htold fun index _ h => Or.inl ?_
    rw [Waits, hannouncements]
    exact h
  have htold : ∀ message index, TellOf accepted index → TellOf (accepted ++ [message]) index :=
    fun _ _ h => tellOf_append.mpr (Or.inl h)
  cases hstance with
  | introducing p known hcarries hwell htrimmed hcount hknown hbefore hahead hcovers =>
      refine ⟨_, hcarries.bytes_eq, hcandid.append_bitfield hwell htrimmed hcount ?_ hbefore hknown,
        .unchoking fun hlive' => hlater (fun index hindex => ?_) (hcovers (hlive hlive'))⟩
      · have hle := hequipped.pieceCount_le
        refine Message.isFramed_bitfield ?_
        rw [hwell, bitfieldLength, hcount]
        omega
      · refine tellOf_append.mpr (Or.inr (tellOf_singleton.mpr ?_))
        exact (tellsOf_bitfield (Bitfield.lt_of_contains hindex)).trans hindex
  | offering p hcarries hcovers =>
      refine ⟨_, hcarries.bytes_eq, ?_, .settled .awaitingPieces rfl fun hlive' =>
        ⟨hlater (htold _) (hcovers (hlive hlive')),
          List.mem_append_right _ (List.mem_singleton.mpr rfl)⟩⟩
      exact hcandid.append_silent (Message.isFramed_of_short (by simp) (by simp)) (by simp)
        (fun _ => rfl) fun _ => rfl
  | settled _ hsettled => cases hsettled
  | asking p message after hcarries hasking hafter hall =>
      refine ⟨_, hcarries.bytes_eq, ?_, .settled after hafter fun hlive' =>
        (hall (hlive hlive')).imp (hlater (htold _)) (List.mem_append_left _)⟩
      cases hasking with
      | interested | notInterested | request =>
          exact hcandid.append_silent (Message.isFramed_of_short (by simp) (by simp)) (by simp)
            (fun _ => rfl) fun _ => rfl

end Session

end TorrentCore
