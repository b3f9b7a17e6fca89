import TorrentCore.Proofs.Buffer
import TorrentCore.Proofs.Connection.Sending

/-!
# Steps that upload nothing

What was uploaded over a connection is counted by the session, when its uploader has put a packet
into the queue. The connection itself counts what it fetches and nothing else. So every step of a
connection goes past the uploads, and all it does to the pool of packets is to take one out for a
message or to give some back.
-/

namespace TorrentCore

def PeerCounters.uploads (c : PeerCounters) : UInt64 × UInt32 := (c.uploadedBytes, c.uploadedBlocks)

namespace Connection

theorem Flagged.counters_eq {c c' : Connection} (h : c.Flagged c') : c'.counters = c.counters := by
  cases h
  rfl

end Connection

namespace Endpoint

open Connection

/-- A step that counts no upload and spoils no packet. -/
structure Passes (e e' : Endpoint) : Prop where
  uploads_eq : e'.connection.counters.uploads = e.connection.counters.uploads
  clean : e.hub.packetPool.Clean → e'.hub.packetPool.Clean

theorem Passes.trans {e e' e'' : Endpoint} (h : e.Passes e') (h' : e'.Passes e'') : e.Passes e'' :=
  ⟨h'.uploads_eq.trans h.uploads_eq, fun hclean => h'.clean (h.clean hclean)⟩

theorem passes_finish (e : Endpoint) (result : Except Error Unit) : e.Passes (e.finish result) :=
  ⟨rfl, fun hclean => hclean.giveBackAll _⟩

theorem passes_apply {e e' : Endpoint} {now : Nanoseconds} {m : Message}
    (h : e.apply now m = .ok e') : e.Passes e' := by
  cases m with
  | keepAlive | request _ | cancel _ | piece _ _ _ =>
      cases h
      exact ⟨rfl, id⟩
  | choke | unchoke =>
      cases h
      exact ⟨congrArg PeerCounters.uploads (flagged_setAmChoked _ _ _).counters_eq, id⟩
  | interested | notInterested =>
      cases h
      exact ⟨congrArg PeerCounters.uploads (flagged_setPeerInterested _ _ _).counters_eq, id⟩
  | has index =>
      cases h
      unfold applyHave
      split <;> exact ⟨rfl, id⟩
  | bitfield bits =>
      rw [apply, applyBitfield] at h
      split at h
      · cases h
        exact ⟨rfl, id⟩
      · cases h

theorem passes_receive {e e' : Endpoint} {now : Nanoseconds} (h : e.receive? now = some e') :
    e.Passes e' := by
  unfold receive? at h
  simp only at h
  split at h
  · cases h
  cases hphase : e.connection.reader with
  | decoding =>
      rw [hphase] at h
      simp only at h
      split at h
      · split at h
        · next happly =>
          cases h
          refine Passes.trans ?_ (passes_apply happly)
          exact ⟨rfl, id⟩
        · cases h
          refine Passes.trans ?_ (passes_finish _ _)
          exact ⟨rfl, id⟩
      · cases h
        exact passes_finish e _
      · cases h
        exact ⟨rfl, id⟩
  | reading deadline =>
      rw [hphase] at h
      simp only at h
      split at h
      · cases h
        exact passes_finish e _
      · cases h
        exact passes_finish e _
      · cases h
        exact passes_finish e _
      · cases h
        exact ⟨rfl, id⟩
      · split at h
        · cases h
          exact passes_finish e _
        · cases h
  | offeringBlock block | offeringUpload request =>
      rw [hphase] at h
      simp only at h
      split at h
      · cases h
        exact ⟨rfl, id⟩
      · cases h
      · cases h
        exact passes_finish e _

theorem passes_transmit {e e' : Endpoint} {now : Nanoseconds} (h : e.transmit? now = some e') :
    e.Passes e' := by
  unfold transmit? at h
  simp only at h
  split at h
  · cases h
  split at h
  · split at h
    · cases h
      exact ⟨rfl, id⟩
    · split at h
      · cases h
        exact ⟨rfl, fun hclean => (Hub.bytes_pack hclean .keepAlive).2⟩
      · cases h
  · cases h
    exact ⟨rfl, fun hclean => hclean.giveBack _⟩
  · split at h
    · cases h
      exact passes_finish e _
    · split at h
      · cases h
        exact ⟨rfl, id⟩
      · split at h
        · cases h
          exact passes_finish e _
        · cases h

theorem passes_stop {e e' : Endpoint} (h : e.stop? = some e') : e.Passes e' := by
  unfold stop? at h
  split at h
  · cases h
    exact passes_finish e _
  · cases h

theorem passes_of_sent {e e' : Endpoint} {now : Nanoseconds} {late : Bool} {p : Parcel}
    (h : e.send now late p = .sent e') : e.Passes e' := by
  obtain ⟨queue, -, rfl⟩ := send_eq_sent h
  exact ⟨congrArg PeerCounters.uploads (e.flagged_accept now p queue).counters_eq, id⟩

theorem passes_of_refused {e e' : Endpoint} {now : Nanoseconds} {late : Bool} {p : Parcel}
    {cause : Error} (h : e.send now late p = .refused cause e') : e.Passes e' := by
  obtain ⟨rfl, -⟩ := send_eq_refused h
  exact ⟨rfl, fun hclean => hclean.giveBack _⟩

end Endpoint

end TorrentCore
