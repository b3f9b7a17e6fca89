import TorrentCore.Proofs.Session.Owned
import TorrentCore.Proofs.Session.Shift
import TorrentCore.Proofs.Swarm.Catalog

/-!
# The catalog of a swarm

What each event does to the catalog. Attempts and passes leave it as it is, apart from the numbers
that they take. An add that comes to its end lists its session or shuts it down, and `Ending` tells
which: the session is listed if the check went well and no other session of the torrent is listed.
-/

namespace TorrentCore

namespace Session

def card (s : Session) : Card := ⟨s.infoHash, s.cancelled⟩

variable {now : Nanoseconds} {s s' : Session}

theorem card_of_happen {event : Event} (h : s.happen? now event = some s')
    (hevent : event ≠ .shutdown) : s'.card = s.card := by
  have hshift := shift_of_happen h
  have hinfoHash : s'.infoHash = s.infoHash := (constant_of_shift hshift).1
  have hcancelled : s'.cancelled = s.cancelled :=
    (cancelled_eq_of_shift hshift).resolve_right fun hshut => hevent hshut.1
  rw [card, hinfoHash, hcancelled, card]

theorem card_of_make {ownId : Identifier} {t : TorrentSource}
    {connectionOptions : ConnectionOptions}
    {policy : ReservationPolicy} (h : make ownId t connectionOptions policy = .ok s) :
    s.card = ⟨t.infoHash, false⟩ := by
  show Card.mk s.register.infoHash s.register.cancelled = _
  rw [(begins_of_make h).2.2]

theorem card_addAddress (s : Session) (a : Address) : (s.addAddress a).2.card = s.card :=
  have hstep : s.happen? 0 (.addAddress a) = some (s.addAddress a).2 := rfl
  card_of_happen hstep nofun

theorem card_dropAllPeers (s : Session) : s.dropAllPeers.card = s.card :=
  have hstep : s.happen? 0 .dropAllPeers = some s.dropAllPeers := rfl
  card_of_happen hstep nofun

theorem card_addPeer {number : Nat} {link : Link} {address : Address} {h : Handshake}
    {buffer : ReadBuffer} (hadd : s.addPeer now number link address h buffer = .ok s') :
    s'.card = s.card := by
  unfold addPeer at hadd
  split at hadd
  · cases hadd
  split at hadd
  · cases hadd
  · cases hadd
    rfl

theorem card_dropAndShutdown (s : Session) : s.dropAllPeers.shutdown.card = s.card.shut :=
  congrArg Card.shut s.card_dropAllPeers

theorem card_checkExisting (s : Session) : s.checkExisting.2.card = s.card := by
  obtain ⟨owned, heq⟩ := s.checkExisting_eq
  rw [heq]
  rfl

end Session

namespace Swarm

open Catalog

def catalog (w : Swarm) : Catalog :=
  ⟨w.torrents, w.adding, w.stopped, w.nextNumber, fun n => (w.sessions.get? n).map Session.card⟩

variable {w w' : Swarm} {now : Nanoseconds} {number : Nat}

/-! ### Entries -/

theorem catalog_insertSession (w : Swarm) (number : Nat) (s : Session) :
    catalog { w with sessions := w.sessions.insert number s } = w.catalog.put number s.card := by
  simp only [catalog, put, Catalog.mk.injEq, true_and]
  funext n
  rw [Table.get?_insert, Function.update_apply]
  split <;> rfl

theorem catalog_updateSession {s s' : Session} (hs : w.sessions.get? number = some s)
    (hcard : s'.card = s.card) :
    catalog { w with sessions := w.sessions.insert number s' } = w.catalog := by
  rw [catalog_insertSession, hcard]
  exact put_eq_self (congrArg (Option.map Session.card) hs)

theorem catalog_modifySession (w : Swarm) (number : Nat) {f : Session → Session}
    (hf : ∀ s, (f s).card = s.card) : (w.modifySession number f).catalog = w.catalog := by
  simp only [catalog, modifySession, Catalog.mk.injEq, true_and]
  funext n
  rw [Table.get?_modify]
  split
  · next heq =>
    rw [heq, Option.map_map]
    exact congrArg (Option.map · _) (funext hf)
  · rfl

theorem catalog_shutSession (w : Swarm) (number : Nat) {f : Session → Session}
    (hf : ∀ s, (f s).card = s.card.shut) :
    (w.modifySession number f).catalog = w.catalog.shut [number] := by
  simp only [catalog, modifySession, shut, Catalog.mk.injEq, true_and, List.mem_singleton]
  funext n
  rw [Table.get?_modify]
  split
  · next heq =>
    rw [heq, Option.map_map, Option.map_map]
    exact congrArg (Option.map · _) (funext hf)
  · rfl

theorem catalog_shutSessions (numbers : List Nat) (w : Swarm) {f : Session → Session}
    (hf : ∀ s, (f s).card = s.card.shut) :
    (numbers.foldl (fun w n => w.modifySession n f) w).catalog = w.catalog.shut numbers := by
  induction numbers generalizing w with
  | nil => rfl
  | cons n numbers ih =>
      rw [List.foldl_cons, ih, catalog_shutSession w n hf, shut_shut, List.singleton_append]

/-! ### Attempts -/

theorem catalog_modifyAttempt (w : Swarm) (number : Nat) (f : Attempt → Attempt) :
    (w.modifyAttempt number f).catalog = w.catalog := rfl

theorem catalog_releaseSlot (w : Swarm) (number : Nat) (a : Attempt) :
    (w.releaseSlot number a).catalog = w.catalog := by
  unfold releaseSlot
  split <;> rfl

theorem catalog_doneConnecting (w : Swarm) (a : Attempt) :
    (w.doneConnecting a).catalog = w.catalog := by
  unfold doneConnecting
  split
  · exact catalog_modifySession w _ fun s => rfl
  · rfl

theorem catalog_abandon (w : Swarm) (number : Nat) (a : Attempt) :
    (w.abandon number a).catalog = w.catalog := by
  rw [abandon, catalog_doneConnecting, catalog_modifyAttempt, catalog_releaseSlot]

theorem catalog_promote (w : Swarm) (now : Nanoseconds) (number : Nat) (a : Attempt) (x : Exchange)
    (h : Handshake) : (w.promote now number a x h).catalog = w.catalog := by
  unfold promote
  split
  · exact catalog_abandon w number a
  next taker s htaker =>
  split
  · exact catalog_abandon w number a
  · next s' hadd =>
    have hs := session_of_taker? htaker
    have hreleased : (w.releaseSlot number a).sessions = w.sessions := by
      unfold releaseSlot
      split <;> rfl
    simp only [catalog_doneConnecting]
    rw [catalog_updateSession (s := s) _ (Session.card_addPeer hadd), catalog_modifyAttempt,
      catalog_releaseSlot]
    show (w.releaseSlot number a).sessions.get? taker = some s
    rw [hreleased, hs]

theorem catalog_exchange? (h : w.exchange? now number = some w') : w'.catalog = w.catalog := by
  unfold exchange? at h
  split at h
  · split at h
    · split at h
      · cases h
      cases h
      split
      · rfl
      · exact catalog_abandon _ number _
      · exact catalog_promote _ now number _ _ _
    · cases h
  · cases h

theorem catalog_answerDial? {link : Option Link} (h : w.answerDial? now number link = some w') :
    w'.catalog = w.catalog := by
  unfold answerDial? at h
  split at h
  · split at h
    · cases h
      rfl
    · cases h
      exact catalog_abandon w number _
    · cases h
  · cases h

theorem catalog_giveUp? (h : w.giveUp? now number = some w') : w'.catalog = w.catalog := by
  unfold giveUp? at h
  split at h
  · split at h
    · cases h
    · obtain ⟨_, heq⟩ := Option.ite_none_right_eq_some.mp h
      cases heq
      exact catalog_abandon w number _
  · cases h

theorem idle_claimSlot {a : Attempt} (h : w.claimSlot? a = some w') :
    w.catalog.Idle w'.catalog := by
  unfold claimSlot? at h
  split at h <;> cases h
  exact ⟨w.nextNumber + 1, Nat.le_succ _, rfl⟩

/-! ### Passes -/

theorem idle_dialAll (now : Nanoseconds) (number : Nat) (addresses : List Address) (w : Swarm) :
    w.catalog.Idle (dialAll now number addresses w).2.catalog := by
  induction addresses generalizing w with
  | nil => exact .refl _
  | cons a addresses ih =>
      rw [dialAll]
      split
      · next w' hdial =>
        have hclaimed := idle_claimSlot hdial
        have hstarted : (w.modifySession number fun s => s.startConnecting a).catalog = w.catalog :=
          catalog_modifySession w number fun _ => rfl
        rw [hstarted] at hclaimed
        exact hclaimed.trans (ih w')
      · exact .refl _

theorem idle_reconcileSession (w : Swarm) (now : Nanoseconds) (number : Nat) :
    w.catalog.Idle (w.reconcileSession now number).2.catalog := by
  unfold reconcileSession
  split
  · exact .refl _
  next s hs =>
  split
  · simp only
    split
    · exact .refl _
    · rw [catalog_modifySession w number Session.card_dropAllPeers]
      exact .refl _
  · have hcard : s.removeFinishedPeers.card = s.card := rfl
    have hswept := catalog_updateSession hs hcard
    simp only
    split
    · rw [hswept]
      exact .refl _
    · have hdialed := idle_dialAll now number (s.removeFinishedPeers.addressesToDial
        w.options.maxPeersPerTorrent) { w with
          sessions := w.sessions.insert number s.removeFinishedPeers }
      rwa [hswept] at hdialed

theorem idle_reconcile (w : Swarm) (now : Nanoseconds) :
    w.catalog.Idle (w.reconcile now).catalog := by
  unfold reconcile
  generalize w.torrents.values = numbers
  induction numbers generalizing w with
  | nil => exact .refl _
  | cons number numbers ih =>
      have hfirst := idle_reconcileSession w now number
      rw [reconcileSessions]
      generalize w.reconcileSession now number = out at hfirst
      obtain ⟨_ | _, w'⟩ := out
      · exact hfirst
      · exact hfirst.trans (ih w')

/-! ### Adding -/

def isAdding (w : Swarm) (number : Nat) : Bool :=
  w.adding.contains number && w.sessions.contains number

/-- The session that is to be listed now. There is none if what it has was checked and the check
failed. -/
def ready? (w : Swarm) (number : Nat) : Option Session :=
  match w.adding.get? number, w.sessions.get? number with
  | some check, some s =>
    if check then
      match s.checkExisting with
      | (.ok _, s) => some s
      | (.error _, _) => none
    else some s
  | _, _ => none

def discard (w : Swarm) (number : Nat) (s : Session) : Swarm :=
  { w with
    adding := w.adding.erase number
    sessions := w.sessions.insert number s.shutdown }

inductive Ending (w : Swarm) (number : Nat) : Except Error Unit → Swarm → Prop
  | listed (s : Session) (hready : w.ready? number = some s)
      (hcard : w.catalog.card number = some s.card) (hnew : w.torrents.get? s.infoHash = none) :
      Ending w number (.ok ()) { w with
        adding := w.adding.erase number
        sessions := w.sessions.insert number s
        torrents := w.torrents.insert s.infoHash number }
  /-- Another session of the torrent is listed already. -/
  | outrun (s : Session) (hready : w.ready? number = some s)
      (hcard : w.catalog.card number = some s.card) (hold : w.torrents.get? s.infoHash ≠ none) :
      Ending w number (.error (.torrentAlreadyExists s.infoHash)) (w.discard number s)
  | failed (s : Session) (e : Error) (hready : w.ready? number = none)
      (hcard : w.catalog.card number = some s.card) :
      Ending w number (.error e) (w.discard number s)

theorem ending_list {s : Session} (hready : w.ready? number = some s)
    (hcard : w.catalog.card number = some s.card) :
    w.Ending number (list { w with adding := w.adding.erase number } number s).1
      (list { w with adding := w.adding.erase number } number s).2 := by
  unfold list
  split
  · next hold => exact .outrun s hready hcard (Option.isSome_iff_ne_none.mp hold)
  · next hnew => exact .listed s hready hcard (Option.not_isSome_iff_eq_none.mp hnew)

theorem ending_finishAdd (h : w.isAdding number = true) :
    w.Ending number (w.finishAdd number).1 (w.finishAdd number).2 := by
  obtain ⟨hadding, hmade⟩ := Bool.and_eq_true_iff.mp h
  obtain ⟨check, hcheck⟩ := Option.isSome_iff_exists.mp hadding
  obtain ⟨s, hs⟩ := Option.isSome_iff_exists.mp hmade
  have hcard : ∀ {s' : Session}, s'.card = s.card → w.catalog.card number = some s'.card := by
    intro s' hsame
    rw [hsame]
    exact congrArg (Option.map Session.card) hs
  have hready : w.ready? number = if check then (match s.checkExisting with
      | (.ok _, s) => some s
      | (.error _, _) => none) else some s := by
    rw [ready?, hcheck, hs]
  rw [finishAdd, hcheck, hs]
  simp only
  cases check with
  | false => exact ending_list hready (hcard rfl)
  | true =>
      have hchecked := s.card_checkExisting
      generalize s.checkExisting = out at hready hchecked
      obtain ⟨_ | _, s'⟩ := out
      · exact .failed s' _ hready (hcard hchecked)
      · exact ending_list hready (hcard hchecked)

theorem finishAdd_of_not_adding (h : w.isAdding number = false) :
    w.finishAdd number = (.ok (), w) := by
  unfold finishAdd
  split
  · next hcheck hs =>
    rw [isAdding, Table.contains, Table.contains, hcheck, hs] at h
    cases h
  · rfl

theorem isAdding_of_ready {s : Session} (h : w.ready? number = some s) :
    w.isAdding number = true := by
  unfold ready? at h
  split at h
  · next hcheck hs =>
    rw [isAdding, Table.contains, Table.contains, hcheck, hs]
    rfl
  · cases h

theorem not_isAdding (h : w.adding.get? number = none) : ¬ w.isAdding number = true := by
  rw [isAdding, Table.contains, h]
  exact Bool.false_ne_true

theorem catalog_discard {s : Session} (hcard : w.catalog.card number = some s.card) :
    (w.discard number s).catalog = w.catalog.reject number := by
  have hput := catalog_insertSession w number s.shutdown
  have hcards := congrArg Catalog.card (hput.trans (shut_singleton hcard).symm)
  exact Catalog.ext rfl rfl rfl rfl hcards

theorem catalog_listed {s : Session} (hcard : w.catalog.card number = some s.card) :
    catalog { w with
      adding := w.adding.erase number
      sessions := w.sessions.insert number s
      torrents := w.torrents.insert s.infoHash number } = w.catalog.list number s.infoHash := by
  have hput := catalog_insertSession w number s
  have hcards := congrArg Catalog.card (hput.trans (put_eq_self hcard))
  exact Catalog.ext rfl rfl rfl rfl hcards

theorem turn_of_ending {answer : Except Error Unit} (hadding : w.isAdding number = true)
    (h : w.Ending number answer w') : w.catalog.Turn (.finishAdd number) w'.catalog := by
  obtain ⟨check, hcheck⟩ := Option.isSome_iff_exists.mp (Bool.and_eq_true_iff.mp hadding).1
  cases h with
  | listed s hready hcard hnew =>
      exact catalog_listed hcard ▸ .listed number check s.card hcheck hcard hnew
  | outrun s hready hcard hold => exact catalog_discard hcard ▸ .rejected number check hcheck
  | failed s e hready hcard => exact catalog_discard hcard ▸ .rejected number check hcheck

/-! ### Events -/

theorem turn_beginAdd (w : Swarm) (t : TorrentSource) :
    w.catalog.Turn (.beginAdd t) (w.after (w.beginAdd t)).catalog := by
  unfold beginAdd
  split
  · exact .idle _ _ (.refl _)
  next hnew =>
  split
  · exact .idle _ _ (.refl _)
  · next s hmake =>
    have hcard : (if w.stopped then s.shutdown else s).card = ⟨t.infoHash, w.stopped⟩ := by
      have hmade := Session.card_of_make hmake
      cases w.stopped
      · exact hmade
      · exact congrArg Card.shut hmade
    have hput := catalog_insertSession w w.nextNumber (if w.stopped then s.shutdown else s)
    rw [hcard] at hput
    have hcards := congrArg Catalog.card hput
    have hbegun : catalog { w with
        sessions := w.sessions.insert w.nextNumber (if w.stopped then s.shutdown else s)
        adding := w.adding.insert w.nextNumber (t.initial == .check)
        nextNumber := w.nextNumber + 1 } = w.catalog.begin t.infoHash (t.initial == .check) :=
      Catalog.ext rfl rfl rfl rfl hcards
    have hturn := Turn.begun (c := w.catalog) t (Option.not_isSome_iff_eq_none.mp hnew)
    exact hbegun ▸ hturn

theorem catalog_stop (w : Swarm) : w.stop.catalog = w.catalog.stop := by
  have hlisted := catalog_shutSessions w.torrents.values w Session.card_dropAndShutdown
  rw [stop]
  generalize w.torrents.values.foldl (fun w n => w.modifySession n fun s => s.dropAllPeers.shutdown) w
    = w₁ at hlisted
  have hadding := catalog_shutSessions w₁.adding.keys w₁ (f := Session.shutdown) fun _ => rfl
  have hkeys : w₁.adding = w.adding := congrArg Catalog.adding hlisted
  rw [hlisted, shut_shut, hkeys] at hadding
  rw [hkeys]
  obtain ⟨-, hsame, -, hnext, hcards⟩ := Catalog.ext_iff.mp hadding
  exact Catalog.ext rfl hsame rfl hnext hcards

theorem turn_of_happen {event : Event} (h : w.happen? now event = some w') :
    w.catalog.Turn event w'.catalog := by
  have hquiet : ∀ {event : Event} {w' : Swarm}, w'.catalog = w.catalog →
      w.catalog.Turn event w'.catalog := fun hsame => .idle _ _ (hsame ▸ .refl _)
  have hsession : ∀ {event : Event} {number : Nat} {s s' : Session} {e : Session.Event},
      w.sessions.get? number = some s → s.happen? now e = some s' → e ≠ .shutdown →
      w.catalog.Turn event (catalog { w with sessions := w.sessions.insert number s' }) :=
    fun hs hstep he => hquiet (catalog_updateSession hs (Session.card_of_happen hstep he))
  cases event with
  | own action =>
      cases action with
      | session number action =>
          rw [happen?, act?] at h
          split at h
          · cases h
          next s hs =>
          obtain ⟨s', hstep, rfl⟩ := Option.map_eq_some_iff.mp h
          have hhappened : s.happen? now (.own action) = some s' := hstep
          refine hsession hs hhappened fun hevent => ?_
          cases hevent
      | exchange number => exact hquiet (catalog_exchange? h)
      | giveUp number => exact hquiet (catalog_giveUp? h)
      | answerDial number link => exact hquiet (catalog_answerDial? h)
      | reconcile =>
          rw [happen?, act?, reconcile?] at h
          split at h <;> cases h
          exact .idle _ _ (idle_reconcile w now)
  | accept link address =>
      cases h
      cases haccept : w.accept now link address with
      | none => exact hquiet rfl
      | some w' => exact .idle _ _ (idle_claimSlot haccept)
  | beginAdd t =>
      cases h
      exact turn_beginAdd w t
  | finishAdd number =>
      cases h
      cases hadding : w.isAdding number with
      | true => exact turn_of_ending hadding (ending_finishAdd hadding)
      | false =>
          rw [finishAdd_of_not_adding hadding]
          exact hquiet rfl
  | removeTorrent infoHash =>
      cases h
      unfold removeTorrent
      split
      · exact hquiet rfl
      · next number hlisted =>
        have hshut := catalog_shutSession w number Session.card_dropAndShutdown
        have hremoved := Turn.removed (c := w.catalog) infoHash number hlisted
        rw [remove, ← hshut] at hremoved
        exact hremoved
  | addAddress infoHash a =>
      cases h
      unfold addAddress
      split
      · exact hquiet (catalog_modifySession w _ fun s => s.card_addAddress a)
      · exact hquiet rfl
  | reconcile =>
      cases h
      exact .idle _ _ (idle_reconcile w now)
  | stop =>
      cases h
      exact catalog_stop w ▸ .stopped
  | session number event =>
      rw [happen?] at h
      split at h
      · next houtside =>
        obtain ⟨s, hs, hrest⟩ := Option.bind_eq_some_iff.mp h
        obtain ⟨s', hstep, rfl⟩ := Option.map_eq_some_iff.mp hrest
        refine hsession hs hstep ?_
        rintro rfl
        cases houtside
      · cases h
  | check number =>
      cases h
      exact hquiet (catalog_modifySession w number Session.card_checkExisting)
  | farEnd number link =>
      cases h
      exact hquiet rfl

/-- What every turn keeps holds after every run. -/
theorem catalog_invariant {P : Catalog → Prop}
    (hturn : ∀ {c c' event}, P c → c.Turn event c' → P c') {events : List (Nanoseconds × Event)}
    (hw : P w.catalog) (hrun : run? events w = some w') : P w'.catalog := by
  induction events generalizing w with
  | nil =>
      cases hrun
      exact hw
  | cons entry events ih =>
      obtain ⟨next, hnext, hrest⟩ := Option.bind_eq_some_iff.mp hrun
      exact ih (hturn hw (turn_of_happen hnext)) hrest

theorem orderly_run {peerId : Identifier} {options : SwarmOptions} {start : Nanoseconds}
    {events : List (Nanoseconds × Event)}
    (hrun : run? events (make peerId options start) = some w) :
    w.catalog.Orderly ∧ w.catalog.Accounted := by
  refine catalog_invariant (P := fun c => c.Orderly ∧ c.Accounted)
    (fun h hturn => ⟨h.1.turn hturn, h.2.turn hturn⟩) ⟨?_, ?_⟩ hrun
  · exact ⟨List.nodup_nil, nofun, nofun, nofun, fun _ _ => rfl⟩
  · exact fun _ _ hcard _ => nomatch hcard

end Swarm

end TorrentCore
