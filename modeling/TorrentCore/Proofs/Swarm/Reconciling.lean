import Mathlib.Algebra.BigOperators.Group.Finset.Basic
import TorrentCore.Proofs.Session.Run
import TorrentCore.Proofs.Table
import TorrentCore.Swarm.Action

/-!
# How far a pass gets

A pass brings the torrents in line one after the other, and it ends where a session has an address
left to dial and no slot is free. A session that the pass has reached is brought in line as a whole,
also the one at which the pass ends; the sessions behind that one stay as they are, and a paused one
among them keeps its peers. How far the pass gets is told beforehand: a session is reached if and
only if the sessions before it may dial no more addresses than there are free slots.
-/

namespace TorrentCore

namespace Session

/-- What a pass makes of a session that it reaches. -/
structure Tidied (s s' : Session) : Prop where
  paused_eq : s'.paused = s.paused
  dropped : s.paused = true → s'.peers.entries = []
  told : ∀ number, s'.members.get? number = (s.members.get? number).map fun m =>
    if s.paused && s.peers.values.contains number
    then { m with connection := m.connection.disconnect } else m
  kept : s.paused = false → ∀ entry, entry ∈ s'.peers.entries ↔ entry ∈ s.peers.entries
    ∧ ∃ m, s.members.get? entry.2 = some m ∧ m.closedOut = false

theorem Tidied.trans {s s' s'' : Session} (h : s.Tidied s') (h' : s'.Tidied s'') :
    s.Tidied s'' := by
  refine ⟨h'.paused_eq.trans h.paused_eq, fun hpaused => ?_, fun number => ?_,
    fun hactive entry => ?_⟩
  · exact h'.dropped (h.paused_eq.trans hpaused)
  · have hnone : (s'.paused && s'.peers.values.contains number) = false := by
      rw [h.paused_eq]
      cases hpaused : s.paused with
      | false => rfl
      | true => rw [Table.values, h.dropped hpaused]; rfl
    rw [h'.told, h.told, hnone, Option.map_map]
    rfl
  · have hmembers : s'.members.get? entry.2 = s.members.get? entry.2 := by
      rw [h.told, hactive, Bool.false_and]
      exact Option.map_id'
    rw [h'.kept (h.paused_eq.trans hactive), h.kept hactive, hmembers, and_assoc, and_self]

theorem get?_foldl_disconnect (numbers : List Nat) (s : Session) (number : Nat) :
    (numbers.foldl disconnect s).members.get? number = (s.members.get? number).map fun m =>
      if numbers.contains number then { m with connection := m.connection.disconnect } else m := by
  induction numbers generalizing s with
  | nil => exact Option.map_id'.symm
  | cons first numbers ih =>
      rw [List.foldl_cons, ih, disconnect, Table.get?_modify, List.contains_cons]
      by_cases heq : number = first
      · rw [if_pos heq, heq, Option.map_map, beq_self_eq_true, Bool.true_or]
        congr 1
        funext m
        -- Telling a connection twice is telling it once.
        rw [Function.comp_apply]
        split <;> rfl
      · rw [if_neg heq, beq_false_of_ne heq, Bool.false_or]

theorem paused_foldl_disconnect (numbers : List Nat) (s : Session) :
    (numbers.foldl disconnect s).paused = s.paused := by
  induction numbers generalizing s with
  | nil => rfl
  | cons first numbers ih => exact ih (s.disconnect first)

theorem tidied_dropAllPeers {s : Session} (h : s.paused = true) : s.Tidied s.dropAllPeers where
  paused_eq := paused_foldl_disconnect s.peers.values s
  dropped := fun _ => rfl
  told := fun number => by
    rw [h, Bool.true_and]
    exact get?_foldl_disconnect s.peers.values s number
  kept := fun hactive => by
    rw [h] at hactive
    cases hactive

theorem dropAllPeers_of_isEmpty {s : Session} (h : s.peers.isEmpty = true) :
    s.dropAllPeers = s := by
  have hnone : s.peers = .empty := congrArg Table.mk (List.isEmpty_iff.mp h)
  rw [dropAllPeers, hnone]
  show { s with peers := .empty } = s
  rw [← hnone]

theorem tidied_removeFinishedPeers {s : Session} (h : s.paused = false)
    (connecting : List Address) :
    s.Tidied { s.removeFinishedPeers with connecting := connecting } where
  paused_eq := rfl
  dropped := fun hpaused => by
    rw [h] at hpaused
    cases hpaused
  told := fun number => by
    rw [h, Bool.false_and]
    exact Option.map_id'.symm
  kept := fun _ entry => by
    show entry ∈ List.filter _ s.peers.entries ↔ _
    rw [List.mem_filter]
    refine and_congr_right fun _ => ?_
    cases hm : s.members.get? entry.2 with
    | none => simp [hm]
    | some m => simp [hm]

/-- How many addresses a pass would dial for a session, given the bound on its peers. -/
def demand (s : Session) (bound : Nat) : Nat :=
  if s.paused || s.isFinished then 0 else (s.removeFinishedPeers.addressesToDial bound).length

theorem removeFinishedPeers_removeFinishedPeers (s : Session) :
    s.removeFinishedPeers.removeFinishedPeers = s.removeFinishedPeers := by
  unfold removeFinishedPeers
  simp only [Table.filter, List.filter_filter, Bool.and_self]

/-- When every address was dialed none is left: either all of them are being dialed now, or there is
no room for more peers. -/
theorem addressesToDial_of_dialed (s : Session) (bound : Nat) :
    addressesToDial { s with connecting := s.connecting ++ s.addressesToDial bound } bound
      = [] := by
  generalize hdialed : s.addressesToDial bound = dialed
  unfold addressesToDial at hdialed ⊢
  simp only at hdialed ⊢
  generalize (s.peers.values.filterMap fun number =>
    (s.members.get? number).map fun m => m.connection.address) = connected at hdialed ⊢
  generalize hopen : (s.discovered.filter fun a =>
    !connected.contains a && !s.connecting.contains a) = candidates at hdialed
  rw [List.take_eq_nil_iff]
  by_cases hall : candidates.length ≤ bound - (s.peers.size + s.connecting.length)
  · right
    rw [List.take_of_length_le hall] at hdialed
    rw [List.filter_eq_nil_iff]
    intro a ha hgoes
    simp only [List.contains_append, Bool.not_or, Bool.and_eq_true] at hgoes
    have hcandidate : a ∈ dialed := by
      rw [← hdialed, ← hopen, List.mem_filter, Bool.and_eq_true]
      exact ⟨ha, hgoes.1, hgoes.2.1⟩
    rw [List.contains_iff_mem.mpr hcandidate] at hgoes
    exact Bool.noConfusion hgoes.2.2
  · left
    have hlength := congrArg List.length hdialed
    rw [List.length_take] at hlength
    rw [List.length_append]
    omega

theorem demand_of_dialed (s : Session) (bound : Nat) :
    demand { s.removeFinishedPeers with
      connecting := s.connecting ++ s.removeFinishedPeers.addressesToDial bound } bound = 0 := by
  unfold demand
  split
  · rfl
  have hnone := addressesToDial_of_dialed s.removeFinishedPeers bound
  have hsame := removeFinishedPeers_removeFinishedPeers s
  rw [List.length_eq_zero_iff, ← hnone]
  exact congrArg (fun r : Session => addressesToDial { r with
    connecting := s.connecting ++ s.removeFinishedPeers.addressesToDial bound } bound) hsame

end Session

namespace Swarm

variable {w : Swarm} {number : Nat}

def demand (w : Swarm) (number : Nat) : Nat :=
  match w.sessions.get? number with
  | some s => s.demand w.options.maxPeersPerTorrent
  | none => 0

theorem demand_of_session {s : Session} (h : w.sessions.get? number = some s) :
    w.demand number = s.demand w.options.maxPeersPerTorrent := by
  rw [demand, h]

theorem demand_congr {w' : Swarm} (hoptions : w'.options = w.options)
    (hsession : w'.sessions.get? number = w.sessions.get? number) :
    w'.demand number = w.demand number := by
  rw [demand, demand, hoptions, hsession]

theorem dial_of_full (h : w.freeSlots = 0) (now : Nanoseconds) (a : Address) :
    w.dial now number a = none := by
  simp only [dial, claimSlot?, h]

theorem dial_of_free {free : Nat} (h : w.freeSlots = free + 1) (now : Nanoseconds) (a : Address) :
    ∃ w', w.dial now number a = some w' ∧ w'.freeSlots = free ∧ w'.options = w.options
      ∧ w'.sessions = w.sessions := by
  simp only [dial, claimSlot?, h]
  exact ⟨_, rfl, rfl, rfl, rfl⟩

theorem dialAll_spec (now : Nanoseconds) (number : Nat) (addresses : List Address) (w : Swarm) :
    (dialAll now number addresses w).1 = decide (addresses.length ≤ w.freeSlots)
      ∧ (dialAll now number addresses w).2.freeSlots = w.freeSlots - addresses.length
      ∧ (dialAll now number addresses w).2.options = w.options
      ∧ ∀ n, (dialAll now number addresses w).2.sessions.get? n
        = if n = number then (w.sessions.get? n).map fun s =>
            { s with connecting := s.connecting ++ addresses.take w.freeSlots }
          else w.sessions.get? n := by
  induction addresses generalizing w with
  | nil =>
      refine ⟨rfl, rfl, rfl, fun n => ?_⟩
      show w.sessions.get? n = _
      simp only [List.take_nil, List.append_nil]
      split
      · exact Option.map_id'.symm
      · rfl
  | cons a addresses ih =>
      cases hfree : w.freeSlots with
      | zero =>
          have hstuck : dialAll now number (a :: addresses) w = (false, w) := by
            rw [dialAll, dial_of_full (w := w.modifySession number _) hfree]
          rw [hstuck]
          refine ⟨rfl, ?_, rfl, fun n => ?_⟩
          · rw [hfree, Nat.zero_sub]
          · simp only [List.take_zero, List.append_nil]
            split
            · exact Option.map_id'.symm
            · rfl
      | succ free =>
          have hfree_begun : (w.modifySession number fun s => s.startConnecting a).freeSlots
              = free + 1 := hfree
          obtain ⟨w', hdial, hfree', hoptions', hsessions'⟩ := dial_of_free hfree_begun now a
          have hgoesOn : dialAll now number (a :: addresses) w
              = dialAll now number addresses w' := by
            rw [dialAll, hdial]
          obtain ⟨hok, hslots, hoptions, hsessions⟩ := ih w'
          rw [hgoesOn]
          refine ⟨hok.trans ?_, hslots.trans ?_, hoptions.trans hoptions', fun n => ?_⟩
          · rw [hfree', List.length_cons, decide_eq_decide]
            exact Nat.succ_le_succ_iff.symm
          · rw [hfree', List.length_cons]
            omega
          · rw [hsessions, hsessions', hfree', modifySession, Table.get?_modify]
            split
            · next heq =>
              rw [heq, Option.map_map]
              congr 1
              funext s
              simp only [Function.comp_apply, Session.startConnecting, List.append_assoc,
                List.take_succ_cons, List.singleton_append]
            · rfl

structure Turn (w : Swarm) (number : Nat) (out : Bool × Swarm) : Prop where
  options_eq : out.2.options = w.options
  /-- The pass goes on if there was a slot for every address. -/
  goesOn_iff : out.1 = true ↔ w.demand number ≤ w.freeSlots
  freeSlots_eq : out.2.freeSlots = w.freeSlots - w.demand number
  tidied : ∀ s, w.sessions.get? number = some s →
    ∃ s', out.2.sessions.get? number = some s' ∧ s.Tidied s'
  satisfied : out.1 = true → out.2.demand number = 0
  others_eq : ∀ n, n ≠ number → out.2.sessions.get? n = w.sessions.get? n

theorem turn_reconcileSession (w : Swarm) (now : Nanoseconds) (number : Nat) :
    w.Turn number (w.reconcileSession now number) := by
  unfold reconcileSession
  split
  · next hnone =>
    have hdemand : w.demand number = 0 := by rw [demand, hnone]
    refine ⟨rfl, ?_, ?_, fun s hs => ?_, fun _ => hdemand, fun _ _ => rfl⟩
    · simp only [hdemand, Nat.zero_le]
    · rw [hdemand]
      rfl
    · rw [hnone] at hs
      cases hs
  next s hs =>
  split
  · next hpaused =>
    have hdemand : w.demand number = 0 := by
      rw [demand_of_session hs, Session.demand, hpaused, Bool.true_or, if_pos rfl]
    generalize hw' : (if s.peers.isEmpty then w else w.modifySession number Session.dropAllPeers)
      = w'
    have hsession : w'.sessions.get? number = some s.dropAllPeers := by
      rw [← hw']
      split
      · next hempty => rw [hs, Session.dropAllPeers_of_isEmpty hempty]
      · rw [modifySession, Table.get?_modify, if_pos rfl, hs, Option.map_some]
    have hsame : w'.options = w.options ∧ w'.freeSlots = w.freeSlots
        ∧ ∀ n, n ≠ number → w'.sessions.get? n = w.sessions.get? n := by
      rw [← hw']
      split
      · exact ⟨rfl, rfl, fun _ _ => rfl⟩
      · exact ⟨rfl, rfl, fun n hn => (Table.get?_modify _ _ _ _).trans (if_neg hn)⟩
    have htidied := Session.tidied_dropAllPeers hpaused
    refine ⟨hsame.1, ?_, ?_, fun s' hs' => ?_, fun _ => ?_, hsame.2.2⟩
    · simp only [hdemand, Nat.zero_le]
    · rw [hdemand]
      exact hsame.2.1
    · cases hs.symm.trans hs'
      exact ⟨_, hsession, htidied⟩
    · rw [demand_of_session hsession, Session.demand, htidied.paused_eq, hpaused, Bool.true_or,
        if_pos rfl]
  next hactive =>
  rw [Bool.not_eq_true] at hactive
  simp only
  split
  · next hfinished =>
    have hdemand : w.demand number = 0 := by
      rw [demand_of_session hs, Session.demand, hactive, show s.isFinished = true from hfinished]
      rfl
    have hinsert := fun n => Table.get?_insert w.sessions number n s.removeFinishedPeers
    refine ⟨rfl, ?_, ?_, fun s' hs' => ?_, fun _ => ?_, fun n hn => ?_⟩
    · simp only [hdemand, Nat.zero_le]
    · rw [hdemand]
      rfl
    · cases hs.symm.trans hs'
      exact ⟨_, (hinsert number).trans (if_pos rfl),
        Session.tidied_removeFinishedPeers hactive s.connecting⟩
    · rw [demand_of_session ((hinsert number).trans (if_pos rfl)), Session.demand, hfinished,
        Bool.or_true, if_pos rfl]
    · exact (hinsert n).trans (if_neg hn)
  · next hmissing =>
    generalize haddresses : s.removeFinishedPeers.addressesToDial w.options.maxPeersPerTorrent
      = addresses
    have hdemand : w.demand number = addresses.length := by
      rw [demand_of_session hs, Session.demand, hactive, ← haddresses, Bool.false_or]
      exact if_neg hmissing
    obtain ⟨hok, hslots, hoptions, hsessions⟩ := dialAll_spec now number addresses
      { w with sessions := w.sessions.insert number s.removeFinishedPeers }
    have hsession := (hsessions number).trans (if_pos rfl)
    rw [show (Table.get? (w.sessions.insert number s.removeFinishedPeers) number)
      = some s.removeFinishedPeers from Table.get?_insert_self,
      Option.map_some] at hsession
    refine ⟨hoptions, ?_, hslots.trans ?_, fun s' hs' => ?_, fun hdone => ?_, fun n hn => ?_⟩
    · rw [hok, hdemand, decide_eq_true_iff]
    · rw [hdemand]
    · cases hs.symm.trans hs'
      exact ⟨_, hsession, Session.tidied_removeFinishedPeers hactive _⟩
    · rw [demand_of_session hsession, hoptions,
        List.take_of_length_le (of_decide_eq_true (hok.symm.trans hdone)), ← haddresses]
      exact Session.demand_of_dialed s _
    · rw [hsessions, if_neg hn]
      exact Table.get?_insert_of_ne hn

theorem tidied_or_eq_of_pass (now : Nanoseconds) (numbers : List Nat) {w : Swarm} {s : Session}
    (hs : w.sessions.get? number = some s) :
    ∃ s', (reconcileSessions now numbers w).sessions.get? number = some s'
      ∧ (s' = s ∨ s.Tidied s') := by
  induction numbers generalizing w s with
  | nil => exact ⟨s, hs, Or.inl rfl⟩
  | cons first numbers ih =>
      have hturn := turn_reconcileSession w now first
      have hnext : ∃ s', (w.reconcileSession now first).2.sessions.get? number = some s'
          ∧ (s' = s ∨ s.Tidied s') := by
        by_cases heq : number = first
        · rw [heq] at hs ⊢
          obtain ⟨s', hs', htidied⟩ := hturn.tidied s hs
          exact ⟨s', hs', Or.inr htidied⟩
        · exact ⟨s, (hturn.others_eq number heq).trans hs, Or.inl rfl⟩
      rw [reconcileSessions]
      generalize w.reconcileSession now first = out at hnext
      obtain ⟨_ | _, w'⟩ := out
      · exact hnext
      · obtain ⟨s', hs', hbefore⟩ := hnext
        obtain ⟨s'', hs'', hafter⟩ := ih hs'
        refine ⟨s'', hs'', ?_⟩
        rcases hafter with rfl | hafter
        · exact hbefore
        · rcases hbefore with rfl | hbefore
          · exact Or.inr hafter
          · exact Or.inr (hbefore.trans hafter)

/-- How many addresses the sessions before this one may dial. -/
def demandBefore (w : Swarm) (numbers : List Nat) (number : Nat) : Nat :=
  ∑ n ∈ (numbers.takeWhile (· ≠ number)).toFinset, w.demand n

/-- The first session has its turn, and after that it counts no more. -/
theorem demandBefore_cons {w' : Swarm} {first : Nat} (numbers : List Nat) (hne : first ≠ number)
    (hsatisfied : w'.demand first = 0) (hothers : ∀ n, n ≠ first → w'.demand n = w.demand n) :
    w.demandBefore (first :: numbers) number
      = w.demand first + w'.demandBefore numbers number := by
  unfold demandBefore
  rw [List.takeWhile_cons_of_pos (by simpa using hne), List.toFinset_cons]
  generalize (numbers.takeWhile (· ≠ number)).toFinset = rest
  rw [← Finset.insert_erase (Finset.mem_insert_self first rest), Finset.erase_insert_eq_erase,
    Finset.sum_insert (Finset.notMem_erase first rest), ← Finset.sum_erase rest hsatisfied]
  congr 1
  exact Finset.sum_congr rfl fun n hn => (hothers n (Finset.ne_of_mem_erase hn)).symm

theorem pass_spec (now : Nanoseconds) {numbers : List Nat} {w : Swarm} {s : Session}
    (hnumber : number ∈ numbers) (hs : w.sessions.get? number = some s) :
    ∃ s', (reconcileSessions now numbers w).sessions.get? number = some s'
      ∧ (w.demandBefore numbers number ≤ w.freeSlots → s.Tidied s')
      ∧ (w.freeSlots < w.demandBefore numbers number → s' = s) := by
  induction numbers generalizing w s with
  | nil => cases hnumber
  | cons first numbers ih =>
      have hturn := turn_reconcileSession w now first
      rw [reconcileSessions]
      generalize w.reconcileSession now first = out at hturn
      obtain ⟨ok, w'⟩ := out
      by_cases hfirst : first = number
      · subst hfirst
        have hnone : w.demandBefore (first :: numbers) first = 0 := by
          rw [demandBefore, List.takeWhile_cons_of_neg (by simp)]
          rfl
        obtain ⟨s', hs', htidied⟩ := hturn.tidied s hs
        rw [hnone]
        cases ok with
        | false => exact ⟨s', hs', fun _ => htidied, fun hless => absurd hless (Nat.not_lt_zero _)⟩
        | true =>
            obtain ⟨s'', hs'', hafter⟩ := tidied_or_eq_of_pass now numbers hs'
            refine ⟨s'', hs'', fun _ => ?_, fun hless => absurd hless (Nat.not_lt_zero _)⟩
            rcases hafter with rfl | hafter
            · exact htidied
            · exact htidied.trans hafter
      · have hrest : number ∈ numbers :=
          (List.mem_cons.mp hnumber).resolve_left fun heq => hfirst heq.symm
        have hs' := (hturn.others_eq number fun heq => hfirst heq.symm).trans hs
        cases ok with
        | false =>
            -- The first session alone may dial more than there are slots.
            have hmore : w.freeSlots < w.demand first :=
              Nat.lt_of_not_le fun hle => Bool.noConfusion (hturn.goesOn_iff.mpr hle)
            have hle : w.demand first ≤ w.demandBefore (first :: numbers) number := by
              rw [demandBefore, ← Finset.add_sum_erase _ w.demand (a := first)]
              · exact Nat.le_add_right _ _
              · rw [List.takeWhile_cons_of_pos (by simpa using hfirst), List.mem_toFinset]
                exact List.mem_cons_self
            exact ⟨s, hs', fun hfits => by omega, fun _ => rfl⟩
        | true =>
            obtain ⟨s', hafter, hreached, hmissed⟩ := ih hrest hs'
            have hfits := hturn.goesOn_iff.mp rfl
            have hfree := hturn.freeSlots_eq
            have hsum := demandBefore_cons numbers hfirst (hturn.satisfied rfl) fun n hn =>
              demand_congr hturn.options_eq (hturn.others_eq n hn)
            refine ⟨s', hafter, fun h => hreached ?_, fun h => hmissed ?_⟩
            · omega
            · omega

/-- One pass brings the session of every torrent in line. -/
def ReachesAll (w : Swarm) (now : Nanoseconds) : Prop :=
  ∀ number ∈ w.torrents.values, ∀ s, w.sessions.get? number = some s →
    ∃ s', (w.reconcile now).sessions.get? number = some s' ∧ s.Tidied s'

/-- A pass brings the session of a torrent in line if the sessions before it may dial no more
addresses than there are free slots. Otherwise it leaves the session as it is. -/
theorem reconcile_tidies_within_slots (w : Swarm) (now : Nanoseconds) {s : Session}
    (hlisted : number ∈ w.torrents.values) (hs : w.sessions.get? number = some s) :
    ∃ s', (w.reconcile now).sessions.get? number = some s'
      ∧ (w.demandBefore w.torrents.values number ≤ w.freeSlots → s.Tidied s')
      ∧ (w.freeSlots < w.demandBefore w.torrents.values number → s' = s) :=
  pass_spec now hlisted hs

/-! ### Two torrents -/

/-- The first torrent has an address to dial. The second one has a peer, and then it is paused.
There is a single slot, and it is free. -/
def twoTorrents : Option Swarm := do
  let here : Address := ⟨.v4 [127, 0, 0, 1], 6881⟩
  let source : TorrentSource := { Session.twoPieces with initial := .nothing }
  let other := Identifier.ofStart [1]
  let peer := Identifier.ofStart [2]
  let link : Link := ⟨(Pipe.make 4096).append (Handshake.plain other peer).encode, .make 4096⟩
  let w := make .zero { maxHalfOpen := 1 } 0
  let (first, w) ← (w.beginAdd source).toOption
  let (_, w) ← ((w.finishAdd first).2.addAddress .zero here).toOption
  let (second, w) ← (w.beginAdd { source with infoHash := other }).toOption
  let w ← (w.finishAdd second).2.accept 0 link here
  let w ← w.act? 0 (.exchange 2)
  let w ← w.act? 0 (.exchange 2)
  let s ← w.sessions.get? second
  let s ← s.happen? 0 .pause
  return { w with sessions := w.sessions.insert second s }

/-- Then somebody else has connected, who says nothing. -/
def crowded : Option Swarm :=
  twoTorrents.bind fun w => w.accept 0 (.make 4096) ⟨.v4 [127, 0, 0, 1], 6882⟩

/-- With a free slot the second torrent loses its peer, which is told to go. -/
theorem reconcile_tidies_within_slots_twoTorrents : ∃ w s s', twoTorrents = some w
    ∧ 1 ∈ w.torrents.values ∧ w.sessions.get? 1 = some s ∧ s.paused = true ∧ s.peers.values = [2]
    ∧ w.demandBefore w.torrents.values 1 = 1 ∧ w.freeSlots = 1
    ∧ (w.reconcile 0).sessions.get? 1 = some s' ∧ s'.peers.entries = []
    ∧ (s'.members.get? 2).map (fun m => m.connection.cancelled) = some true := by
  have hdone : twoTorrents.any (fun w => decide (1 ∈ w.torrents.values
      ∧ w.demandBefore w.torrents.values 1 = 1 ∧ w.freeSlots = 1)
      && (w.sessions.get? 1).any fun s => decide (s.paused = true ∧ s.peers.values = [2]
        ∧ (s.members.get? 2).isSome)) = true := by
    decide +kernel
  obtain ⟨w, hw, htest⟩ := (Option.any_eq_true _ _).mp hdone
  obtain ⟨hslots, htest⟩ := Bool.and_eq_true_iff.mp htest
  obtain ⟨hlisted, hdemand, hfree⟩ := of_decide_eq_true hslots
  obtain ⟨s, hs, htest⟩ := (Option.any_eq_true _ _).mp htest
  obtain ⟨hpaused, hpeers, hmember⟩ := of_decide_eq_true htest
  obtain ⟨s', hs', htidied, -⟩ := reconcile_tidies_within_slots w 0 hlisted hs
  have htidied := htidied (by omega)
  obtain ⟨m, hm⟩ := Option.isSome_iff_exists.mp hmember
  refine ⟨w, s, s', hw, hlisted, hs, hpaused, hpeers, hdemand, hfree, hs',
    htidied.dropped hpaused, ?_⟩
  rw [htidied.told, hpaused, hpeers, hm]
  rfl

/-- With no free slot the pass ends at the first torrent, and the second one keeps its peer. -/
theorem reachesAll_fails : ∃ w, crowded = some w ∧ w.freeSlots = 0 ∧ ¬ w.ReachesAll 0 := by
  have hdone : crowded.any (fun w => decide (w.freeSlots = 0 ∧ 1 ∈ w.torrents.values)
      && (w.sessions.get? 1).any (fun s => s.paused)
      && ((w.reconcile 0).sessions.get? 1).any fun s => !s.peers.entries.isEmpty) = true := by
    decide +kernel
  obtain ⟨w, hw, htest⟩ := (Option.any_eq_true _ _).mp hdone
  obtain ⟨htest, hkeeps⟩ := Bool.and_eq_true_iff.mp htest
  obtain ⟨hslots, hbefore⟩ := Bool.and_eq_true_iff.mp htest
  obtain ⟨hfree, hlisted⟩ := of_decide_eq_true hslots
  obtain ⟨s, hs, hpaused⟩ := (Option.any_eq_true _ _).mp hbefore
  obtain ⟨s', hs', hpeers⟩ := (Option.any_eq_true _ _).mp hkeeps
  refine ⟨w, hw, hfree, fun hall => ?_⟩
  obtain ⟨s'', hs'', htidied⟩ := hall 1 hlisted s hs
  cases hs'.symm.trans hs''
  rw [htidied.dropped hpaused] at hpeers
  cases hpeers

end Swarm

end TorrentCore
