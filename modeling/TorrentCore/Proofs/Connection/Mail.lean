import TorrentCore.Proofs.Connection.Progress
import TorrentCore.Proofs.Connection.Tally

/-!
# Requests that come and packets that wait

As to uploads a connection is whose it is, the request that its reader holds for the uploader, and
the packets that wait to be written. A step of the connection puts no packet into its own queue. The
reader makes a request only of a message of its own peer, holds it under the name of that peer, and
hands it over once.
-/

namespace TorrentCore

/-- The part of a connection that uploads have to do with. -/
structure Mail where
  peerId : Identifier
  reader : ReaderPhase
  queue : List Buffer

namespace Mail

def IsOwn (mail : Mail) : Prop := ∀ u, mail.reader = .offeringUpload u → u.peerId = mail.peerId

/-- Packets were taken from the front of the queue, and the reader went on. -/
structure Onward (mail mail' : Mail) : Prop where
  peerId_eq : mail'.peerId = mail.peerId
  queue : mail'.queue <:+ mail.queue
  own : mail.IsOwn → mail'.IsOwn

def post (packet : Buffer) (mail : Mail) : Mail := { mail with queue := mail.queue ++ [packet] }

end Mail

namespace Connection

def mail (c : Connection) : Mail := ⟨c.peerId, c.reader, c.queue.items⟩

theorem Flagged.mail_eq {c c' : Connection} (h : c.Flagged c') : c'.mail = c.mail := by
  cases h
  rfl

end Connection

namespace Endpoint

variable {e e' : Endpoint} {now : Nanoseconds}

/-- The request that the reader hands over with its next step. -/
def handsOver? (e : Endpoint) : Option UploadRequest :=
  match e.connection.reader with
  | .offeringUpload u => match e.hub.uploads.offer u with
    | .accepted _ => some u
    | _ => none
  | _ => none

/-- A step of a connection with which this request is handed over, if any. -/
structure Forwards (e : Endpoint) (handed : Option UploadRequest) (e' : Endpoint) : Prop where
  mail : e.connection.mail.Onward e'.connection.mail
  uploads_eq : e'.hub.uploads
    = { e.hub.uploads with items := e.hub.uploads.items ++ handed.toList }

theorem forwards_none {e e' : Endpoint} (hpeer : e'.connection.peerId = e.connection.peerId)
    (hqueue : e'.connection.queue.items <:+ e.connection.queue.items)
    (hreader : ∀ u, e'.connection.reader ≠ .offeringUpload u)
    (huploads : e'.hub.uploads = e.hub.uploads) : e.Forwards none e' := by
  refine ⟨⟨hpeer, hqueue, fun _ u hu => absurd hu (hreader u)⟩, ?_⟩
  rw [huploads, Option.toList_none, List.append_nil]

theorem forwards_finish (e : Endpoint) (result : Except Error Unit) :
    e.Forwards none (e.finish result) :=
  forwards_none rfl (List.nil_suffix) (fun _ => ReaderPhase.noConfusion) rfl

/-- A reader that is not about to hand a request over holds one after it has applied a message only
if that is what the message asks for. -/
theorem forwards_apply {m : Message} (hreader : e.connection.reader = .decoding)
    (h : e.apply now m = .ok e') : e.Forwards none e' := by
  have hdecoding : ∀ u, e.connection.reader ≠ .offeringUpload u := by
    intro u hu
    rw [hreader] at hu
    cases hu
  -- What only sets a flag leaves the mail as it is.
  have hflagged : ∀ c, e.connection.Flagged c → e.Forwards none { e with connection := c } := by
    intro c hc
    have hmail := hc.mail_eq
    simp only [Connection.mail, Mail.mk.injEq] at hmail
    obtain ⟨hpeer, hsame, hqueue⟩ := hmail
    exact forwards_none hpeer (hqueue ▸ List.suffix_rfl) (fun u hu => hdecoding u (hsame ▸ hu)) rfl
  cases m with
  | keepAlive =>
      cases h
      exact forwards_none rfl List.suffix_rfl hdecoding rfl
  | choke | unchoke =>
      cases h
      exact hflagged _ (Connection.flagged_setAmChoked _ _ _)
  | interested | notInterested =>
      cases h
      exact hflagged _ (Connection.flagged_setPeerInterested _ _ _)
  | has index =>
      cases h
      unfold applyHave
      split <;> exact forwards_none rfl List.suffix_rfl hdecoding rfl
  | bitfield bits =>
      rw [apply, applyBitfield] at h
      split at h
      · cases h
        exact forwards_none rfl List.suffix_rfl hdecoding rfl
      · cases h
  | request r | cancel r =>
      cases h
      refine ⟨⟨rfl, List.suffix_rfl, fun _ u hu => ?_⟩, ?_⟩
      · cases hu
        rfl
      · rw [Option.toList_none, List.append_nil]
        rfl
  | piece index offset bytes =>
      cases h
      exact forwards_none rfl List.suffix_rfl (fun _ => ReaderPhase.noConfusion) rfl

theorem forwards_receive (h : e.receive? now = some e') : e.Forwards e.handsOver? e' := by
  unfold receive? at h
  simp only at h
  split at h
  · cases h
  unfold handsOver?
  cases hphase : e.connection.reader with
  | decoding =>
      rw [hphase] at h
      simp only at h ⊢
      split at h
      · split at h
        · next happly =>
          cases h
          obtain ⟨⟨hpeer, hqueue, hown⟩, huploads⟩ := forwards_apply rfl happly
          refine ⟨⟨hpeer, hqueue, fun _ => hown fun u hu => ?_⟩, huploads⟩
          cases hu
        · cases h
          exact forwards_none rfl List.nil_suffix (fun _ => ReaderPhase.noConfusion) rfl
      · cases h
        exact forwards_finish e _
      · cases h
        exact forwards_none rfl List.suffix_rfl (fun _ => ReaderPhase.noConfusion) rfl
  | reading deadline =>
      rw [hphase] at h
      simp only at h ⊢
      split at h
      · cases h
        exact forwards_finish e _
      · cases h
        exact forwards_finish e _
      · cases h
        exact forwards_finish e _
      · cases h
        exact forwards_none rfl List.suffix_rfl (fun _ => ReaderPhase.noConfusion) rfl
      · split at h
        · cases h
          exact forwards_finish e _
        · cases h
  | offeringBlock block =>
      rw [hphase] at h
      simp only at h ⊢
      split at h
      · cases h
        exact forwards_none rfl List.suffix_rfl (fun _ => ReaderPhase.noConfusion) rfl
      · cases h
      · cases h
        exact forwards_finish e _
  | offeringUpload u =>
      rw [hphase] at h
      simp only at h ⊢
      split at h
      · next uploads hoffer =>
        cases h
        obtain ⟨_, _, rfl⟩ := Channel.offer_eq_accepted_iff.mp hoffer
        rw [hoffer]
        exact ⟨⟨rfl, List.suffix_rfl, fun _ u hu => ReaderPhase.noConfusion hu⟩, rfl⟩
      · cases h
      · next hoffer =>
        cases h
        rw [hoffer]
        exact forwards_finish e _

theorem forwards_transmit (h : e.transmit? now = some e') : e.Forwards none e' := by
  -- The writer leaves the reader alone.
  have hkeeps : ∀ e₀ : Endpoint, e₀.connection.peerId = e.connection.peerId →
      e₀.connection.queue.items <:+ e.connection.queue.items →
      e₀.connection.reader = e.connection.reader → e₀.hub.uploads = e.hub.uploads →
      e.Forwards none e₀ := by
    intro e₀ hpeer hqueue hreader huploads
    refine ⟨⟨hpeer, hqueue, fun hown u hu => ?_⟩, ?_⟩
    · exact (hown u (hreader.symm.trans hu)).trans hpeer.symm
    · rw [huploads, Option.toList_none, List.append_nil]
  unfold transmit? at h
  simp only at h
  split at h
  · cases h
  split at h
  · split at h
    · next packet queue htake =>
      cases h
      refine hkeeps _ rfl ?_ rfl rfl
      unfold Channel.take? at htake
      split at htake
      · cases htake
      · next hitems =>
        cases htake
        show _ <:+ e.connection.queue.items
        rw [hitems]
        exact List.suffix_cons _ _
    · split at h
      · cases h
        exact hkeeps _ rfl List.suffix_rfl rfl rfl
      · cases h
  · cases h
    exact hkeeps _ rfl List.suffix_rfl rfl rfl
  · split at h
    · cases h
      exact forwards_finish e _
    · split at h
      · cases h
        exact hkeeps _ rfl List.suffix_rfl rfl rfl
      · split at h
        · cases h
          exact forwards_finish e _
        · cases h

theorem forwards_stop (h : e.stop? = some e') : e.Forwards none e' := by
  unfold stop? at h
  split at h
  · cases h
    exact forwards_finish e _
  · cases h

theorem mail_of_sent {late : Bool} {p : Parcel} (h : e.send now late p = .sent e') :
    e'.connection.mail = e.connection.mail.post p.packet ∧ e'.hub = e.hub := by
  obtain ⟨queue, hoffer, rfl⟩ := send_eq_sent h
  obtain ⟨_, _, rfl⟩ := Channel.offer_eq_accepted_iff.mp hoffer
  exact ⟨(e.flagged_accept now p _).mail_eq, rfl⟩

theorem mail_of_refused {late : Bool} {p : Parcel} {cause : Error}
    (h : e.send now late p = .refused cause e') :
    e'.connection.mail = e.connection.mail ∧ e'.hub = e.hub.unpack p := by
  obtain ⟨rfl, -⟩ := send_eq_refused h
  exact ⟨rfl, rfl⟩

end Endpoint

end TorrentCore
