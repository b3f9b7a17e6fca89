import TorrentCore.Proofs.Swarm.Books

/-!
# A pass, stride by stride

A pass sweeps the sessions that are at work, empties those that are paused, and dials. How many
addresses of a session it may dial is reckoned once, before the first of them; each dial after that
finds the reckoning still right, because it adds to what is being dialed just the address that was
next.
-/

namespace TorrentCore

namespace Session

/-- What holds before the first of these addresses is dialed. -/
structure MayDialAll (s : Session) (bound : Nat) (addresses : List Address) : Prop where
  unpaused : s.paused = false
  unfinished : s.isFinished = false
  discovered : ∀ a ∈ addresses, a ∈ s.discovered
  unconnected : ∀ a ∈ addresses, ∀ peerId number m, (peerId, number) ∈ s.peers.entries →
    s.members.get? number = some m → m.connection.address ≠ a
  idle : s.discovered.Nodup → addresses.Nodup ∧ ∀ a ∈ addresses, a ∉ s.connecting
  room : addresses.length ≤ bound - (s.peers.size + s.connecting.length)

variable {s : Session} {bound : Nat} {a : Address} {addresses : List Address}

theorem mayDialAll_addressesToDial (hactive : s.paused = false) (hmissing : s.isFinished = false) :
    s.MayDialAll bound (s.addressesToDial bound) := by
  unfold addressesToDial
  generalize hconnected : (s.peers.values.filterMap fun number =>
    (s.members.get? number).map fun m => m.connection.address) = connected
  have hmem : ∀ a, a ∈ ((s.discovered.filter fun a => !connected.contains a
      && !s.connecting.contains a).take (bound - (s.peers.size + s.connecting.length))) →
      a ∈ s.discovered ∧ a ∉ connected ∧ a ∉ s.connecting := by
    intro a ha
    simpa using List.mem_filter.mp (List.mem_of_mem_take ha)
  refine ⟨hactive, hmissing, fun a ha => (hmem a ha).1, fun a ha peerId number m hpeer hm => ?_,
    fun hnodup => ⟨?_, fun a ha => (hmem a ha).2.2⟩, List.length_take_le _ _⟩
  · rintro rfl
    apply (hmem _ ha).2.1
    rw [← hconnected, List.mem_filterMap]
    exact ⟨number, List.mem_map.mpr ⟨_, hpeer, rfl⟩, by rw [hm, Option.map_some]⟩
  · exact (hnodup.filter _).sublist (List.take_sublist _ _)

theorem MayDialAll.head (h : s.MayDialAll bound (a :: addresses)) : s.MayDial bound a where
  unpaused := h.unpaused
  unfinished := h.unfinished
  discovered := h.discovered a List.mem_cons_self
  unconnected := h.unconnected a List.mem_cons_self
  idle := fun hnodup => (h.idle hnodup).2 a List.mem_cons_self
  room := by
    have hroom := h.room
    rw [List.length_cons] at hroom
    omega

theorem MayDialAll.tail (h : s.MayDialAll bound (a :: addresses)) :
    (s.startConnecting a).MayDialAll bound addresses where
  unpaused := h.unpaused
  unfinished := h.unfinished
  discovered := fun a' ha' => h.discovered a' (List.mem_cons_of_mem _ ha')
  unconnected := fun a' ha' => h.unconnected a' (List.mem_cons_of_mem _ ha')
  idle := fun hnodup => by
    obtain ⟨hdistinct, hidle⟩ := h.idle hnodup
    rw [List.nodup_cons] at hdistinct
    refine ⟨hdistinct.2, fun a' ha' hconnecting => ?_⟩
    rcases List.mem_append.mp hconnecting with hbefore | hnew
    · exact hidle a' (List.mem_cons_of_mem _ ha') hbefore
    · exact hdistinct.1 (List.mem_singleton.mp hnew ▸ ha')
  room := by
    have hroom := h.room
    rw [List.length_cons] at hroom
    show addresses.length ≤ bound - (s.peers.size + (s.connecting ++ [a]).length)
    rw [List.length_append, List.length_singleton]
    omega

end Session

namespace Swarm

open Books Relation

variable {w w' : Swarm} {now : Nanoseconds} {number : Nat}

abbrev Passes : Books → Books → Prop := ReflTransGen Books.PassStride

theorem passes_dialAll (now : Nanoseconds) {addresses : List Address} {s : Session}
    (hs : w.sessions.get? number = some s)
    (hmay : s.MayDialAll w.options.maxPeersPerTorrent addresses) :
    Passes w.books (dialAll now number addresses w).2.books := by
  induction addresses generalizing w s with
  | nil => exact .refl
  | cons a addresses ih =>
      rw [dialAll]
      split
      · next w' hdial =>
        obtain ⟨free, hfree, hbooks⟩ := books_claimSlot hdial
        rw [books_modifySession_some hs] at hbooks
        have hstride : w.books.PassStride w'.books := by
          rw [hbooks]
          exact .dialed _ (.dial number s a free _ hs hmay.head hfree)
        have hs' : w'.sessions.get? number = some (s.startConnecting a) := by
          have hsessions := congrFun (congrArg Books.session hbooks) number
          exact hsessions.trans (Function.update_self _ _ _)
        have hoptions : w'.options = w.options := congrArg Books.options hbooks
        exact .head hstride (ih hs' (hoptions ▸ hmay.tail))
      · exact .refl

theorem passes_reconcileSession (w : Swarm) (now : Nanoseconds) (number : Nat) :
    Passes w.books (w.reconcileSession now number).2.books := by
  unfold reconcileSession
  split
  · exact .refl
  next s hs =>
  split
  · next hpaused =>
    simp only
    split
    · exact .refl
    · rw [books_modifySession_some hs]
      exact .single (.dropped number s hs hpaused)
  next hactive =>
  rw [Bool.not_eq_true] at hactive
  have hswept := PassStride.swept (b := w.books) number s hs hactive
  rw [← books_insertSession] at hswept
  simp only
  split
  · exact .single hswept
  · next hmissing =>
    rw [Bool.not_eq_true] at hmissing
    have hget : (w.sessions.insert number s.removeFinishedPeers).get? number
        = some s.removeFinishedPeers := Table.get?_insert_self
    exact .head hswept (passes_dialAll now hget (Session.mayDialAll_addressesToDial hactive hmissing))

theorem passes_reconcile (w : Swarm) (now : Nanoseconds) :
    Passes w.books (w.reconcile now).books := by
  unfold reconcile
  generalize w.torrents.values = numbers
  induction numbers generalizing w with
  | nil => exact .refl
  | cons number numbers ih =>
      have hfirst := passes_reconcileSession w now number
      rw [reconcileSessions]
      generalize w.reconcileSession now number = out at hfirst
      obtain ⟨_ | _, w'⟩ := out
      · exact hfirst
      · exact hfirst.trans (ih w')

theorem passes_reconcile? (h : w.reconcile? now = some w') : Passes w.books w'.books := by
  unfold reconcile? at h
  split at h
  · cases h
  · cases h
    exact passes_reconcile w now

end Swarm

end TorrentCore
