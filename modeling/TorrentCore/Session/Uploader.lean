import TorrentCore.Session.State

/-!
# Serving uploads

Requests are served one at a time, in the order they came. A request that its peer takes back is
dropped if it still waits. Only a peer that we do not choke is served, and only from pieces that we
have. A request that no peer may make ends the connection.
-/

namespace TorrentCore

namespace Session

/-- Puts a request at the end of the backlog, or drops the requests that are taken back. -/
def enqueue (backlog : List UploadRequest) (r : UploadRequest) : List UploadRequest :=
  match r.kind with
  | .request => backlog ++ [r]
  | .cancel => backlog.filter fun q => !(q.peerId == r.peerId && q.request == r.request)

/-- Whether a part of a piece may be asked for: the piece exists, the part lies in it, and is
neither empty nor too long. -/
def isValidRequest (s : Session) (r : BlockRequest) : Bool :=
  match s.geometry.piece? r.index with
  | none => false
  | some p =>
    r.length != 0 && r.length ≤ s.options.maxRequest
      && r.offset.toNat + r.length.toNat < 4294967296
      && r.offset.toNat + r.length.toNat ≤ (s.geometry.lengthOf p).toNat

/-- Begins to serve a request. -/
def serve (s : Session) (r : UploadRequest) : Session :=
  match s.peers.get? r.peerId with
  | none => s
  | some number =>
    if s.paused then s
    else if !s.isValidRequest r.request then s.disconnect number
    else if !s.owned.contains r.request.index.toNat then s
    else match s.members.get? number with
      | none => s
      | some m =>
        if m.connection.peerChoked then s
        else
          let (packet, pool) := s.hub.packetPool.takeFilled
            (Message.encodePieceHeader r.request.index r.request.offset r.request.length)
          let packet := packet.resize (pieceHeaderSize + r.request.length.toNat)
          { s with
            hub := { s.hub with packetPool := pool }
            upload := .reading number r.request packet }

/-- Moves the requests that have come to the backlog and begins to serve the first one. -/
def pickUpload? (s : Session) : Option Session :=
  match s.upload with
  | .idle =>
    if s.cancelled || (s.backlog.isEmpty && s.hub.uploads.items.isEmpty) then none
    else
      let backlog := s.hub.uploads.items.foldl enqueue s.backlog
      let s := { s with hub := { s.hub with uploads := { s.hub.uploads with items := [] } } }
      match backlog with
      | [] => some { s with backlog := [] }
      | r :: rest => some (serve { s with backlog := rest } r)
  | _ => none

def readUpload? (s : Session) : Option Session :=
  match s.upload with
  | .reading number r packet =>
    let offset := (s.geometry.offsetOf ⟨r.index⟩).toNat + r.offset.toNat
    match s.storage.read offset r.length.toNat with
    | .ok block =>
      let packet := { packet with bytes := packet.bytes.overwrite pieceHeaderSize block }
      some { s with upload := .sending number r ⟨packet, none⟩ }
    | .error _ => some { s with
        upload := .idle
        hub := { s.hub with packetPool := s.hub.packetPool.giveBack packet } }
  | _ => none

def noteUploaded (s : Session) (number length : Nat) : Session :=
  { s with
    counters := s.counters.blockUploaded length
    members := s.members.modify number fun m => { m with
      connection := { m.connection with
        counters := m.connection.counters.blockUploaded length } } }

def sendUpload? (s : Session) (now : Nanoseconds) (late : Bool) : Option Session :=
  match s.upload with
  | .sending number r parcel => match s.deliver now late number parcel with
    | .sent s => some ({ s with upload := .idle }.noteUploaded number r.length.toNat)
    | .refused s => some { s with upload := .idle }
    | .full => none
  | _ => none

def sendAnnouncement? (s : Session) (now : Nanoseconds) (late : Bool) (position : Nat) :
    Option Session :=
  match s.announcements[position]? with
  | none => none
  | some a =>
    let rest := s.announcements.eraseIdx position
    match s.deliver now late a.number a.parcel with
    | .sent s => some { s with announcements := rest }
    | .refused s => some { s with announcements := rest }
    | .full => none

end Session

end TorrentCore
