import TorrentCore.Swarm.State

/-!
# Adding and removing torrents

A torrent is added in two steps, because checking what is in storage takes its time: first the
session is made, then it is checked and listed. Whoever lists a torrent first wins. A session that
is not listed in the end is shut down.
-/

namespace TorrentCore

namespace Swarm

/-- Makes the session of a torrent that is not listed yet, and gives its number. -/
def beginAdd (w : Swarm) (t : TorrentSource) : Except Error (Nat × Swarm) :=
  if w.torrents.contains t.infoHash then .error (.torrentAlreadyExists t.infoHash)
  else match Session.make w.peerId t w.options.connection w.options.reservation with
    | .error e => .error e
    | .ok s =>
      let s := if w.stopped then s.shutdown else s
      .ok (w.nextNumber, { w with
        sessions := w.sessions.insert w.nextNumber s
        adding := w.adding.insert w.nextNumber (t.initial == .check)
        nextNumber := w.nextNumber + 1 })

def list (w : Swarm) (number : Nat) (s : Session) : Except Error Unit × Swarm :=
  if w.torrents.contains s.infoHash then
    (.error (.torrentAlreadyExists s.infoHash),
      { w with sessions := w.sessions.insert number s.shutdown })
  else
    (.ok (), { w with
      sessions := w.sessions.insert number s
      torrents := w.torrents.insert s.infoHash number })

/-- Checks what a session has, if that was asked for, and lists it. -/
def finishAdd (w : Swarm) (number : Nat) : Except Error Unit × Swarm :=
  match w.adding.get? number, w.sessions.get? number with
  | some check, some s =>
    let w := { w with adding := w.adding.erase number }
    if check then
      match s.checkExisting with
      | (.ok _, s) => w.list number s
      | (.error e, s) => (.error (.storage [e.message]),
          { w with sessions := w.sessions.insert number s.shutdown })
    else w.list number s
  | _, _ => (.ok (), w)

def removeTorrent (w : Swarm) (infoHash : Identifier) : Except Error (Nat × Swarm) :=
  match w.torrents.get? infoHash with
  | none => .error (.torrentNotFound infoHash)
  | some number => .ok (number, { w.modifySession number fun s => s.dropAllPeers.shutdown with
      torrents := w.torrents.erase infoHash })

def addAddress (w : Swarm) (infoHash : Identifier) (a : Address) : Except Error (Bool × Swarm) :=
  match w.torrents.get? infoHash, w.session? infoHash with
  | some number, some s =>
      .ok ((s.addAddress a).1, w.modifySession number fun s => (s.addAddress a).2)
  | _, _ => .error (.torrentNotFound infoHash)

/-- Shuts all listed sessions down and stops everything else. -/
def stop (w : Swarm) : Swarm :=
  let w := w.torrents.values.foldl
    (fun w number => w.modifySession number fun s => s.dropAllPeers.shutdown) w
  let w := w.adding.keys.foldl (fun w number => w.modifySession number Session.shutdown) w
  { w with torrents := .empty, stopped := true }

end Swarm

end TorrentCore
