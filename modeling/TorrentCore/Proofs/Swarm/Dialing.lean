import TorrentCore.Proofs.Session.AddressBook
import TorrentCore.Proofs.Session.Shift
import TorrentCore.Proofs.Swarm.Slots

/-!
# Addresses that are being dialed

A session notes which addresses are being dialed for it. As long as it has not been shut down these
are the addresses of its attempts under way, one attempt for each. A pass, the only one who dials,
dials only what a session has heard of and lacks, and leaves no session with more than its bound.
-/

namespace TorrentCore

/-- What a session notes is what is being dialed, once each. -/
structure Session.Mirrors (s : Session) (dialing : Address → Nat → Prop) : Prop where
  nodup : s.connecting.Nodup
  mem_iff : ∀ x, x ∈ s.connecting ↔ ∃ k, dialing x k
  unique : ∀ x k k', dialing x k → dialing x k' → k = k'

namespace Session

variable {s s' : Session} {dialing dialing' : Address → Nat → Prop} {x : Address} {k : Nat}

theorem Mirrors.congr (h : s.Mirrors dialing) (hconnecting : s'.connecting = s.connecting)
    (hdialing : ∀ x k, dialing' x k ↔ dialing x k) : s'.Mirrors dialing' := by
  have hsame : dialing' = dialing := funext fun x => funext fun k => propext (hdialing x k)
  subst hsame
  exact ⟨hconnecting ▸ h.nodup, hconnecting ▸ h.mem_iff, h.unique⟩

theorem Mirrors.start (h : s.Mirrors dialing) (hidle : x ∉ s.connecting) :
    (s.startConnecting x).Mirrors fun x' k' => dialing x' k' ∨ (x' = x ∧ k' = k) := by
  have hnone : ∀ k, ¬ dialing x k := fun k hk => hidle ((h.mem_iff x).mpr ⟨k, hk⟩)
  refine ⟨?_, fun x' => ?_, fun x' k₁ k₂ h₁ h₂ => ?_⟩
  · show (s.connecting ++ [x]).Nodup
    rw [← List.concat_eq_append]
    exact List.Nodup.concat hidle h.nodup
  · show x' ∈ s.connecting ++ [x] ↔ _
    rw [List.mem_append, List.mem_singleton, h.mem_iff]
    constructor
    · rintro (⟨k', hk'⟩ | rfl)
      · exact ⟨k', Or.inl hk'⟩
      · exact ⟨k, Or.inr ⟨rfl, rfl⟩⟩
    · rintro ⟨k', hk' | ⟨rfl, _⟩⟩
      · exact Or.inl ⟨k', hk'⟩
      · exact Or.inr rfl
  · rcases h₁ with h₁ | ⟨rfl, rfl⟩
    · rcases h₂ with h₂ | ⟨rfl, rfl⟩
      · exact h.unique x' k₁ k₂ h₁ h₂
      · exact absurd h₁ (hnone k₁)
    · rcases h₂ with h₂ | ⟨_, rfl⟩
      · exact absurd h₂ (hnone k₂)
      · rfl

theorem Mirrors.done (h : s.Mirrors dialing) (hk : dialing x k)
    (hself : ∀ x', dialing x' k → x' = x) :
    (s.doneConnecting x).Mirrors fun x' k' => k' ≠ k ∧ dialing x' k' := by
  refine ⟨h.nodup.filter _, fun x' => ?_, fun x' k₁ k₂ h₁ h₂ => h.unique x' k₁ k₂ h₁.2 h₂.2⟩
  show x' ∈ s.connecting.filter (· != x) ↔ _
  rw [List.mem_filter, h.mem_iff, bne_iff_ne]
  constructor
  · rintro ⟨⟨k', hk'⟩, hne⟩
    refine ⟨k', ?_, hk'⟩
    rintro rfl
    exact hne (hself x' hk')
  · rintro ⟨k', hne, hk'⟩
    refine ⟨⟨k', hk'⟩, ?_⟩
    rintro rfl
    exact hne (h.unique x' k' k hk' hk)

theorem connecting_of_isPlain {now : Nanoseconds} {event : Event} (hplain : event.isPlain = true)
    (h : s.happen? now event = some s') : s'.connecting = s.connecting := by
  have hbook : s'.connecting = (s.addressBook.after event).connecting :=
    congrArg AddressBook.connecting (addressBook_of_happen h)
  rw [hbook]
  cases event with
  | startConnecting a | doneConnecting a => cases hplain
  | addAddress a =>
      rw [AddressBook.after]
      split <;> rfl
  | _ => rfl

end Session

namespace Books

variable {options : SwarmOptions} {b b' : Books} {k k' n n' free : Nat} {a a' : Attempt}
  {x : Address} {s s' : Session}

/-- The attempt dials this address for this session. -/
def IsDialing (b : Books) (n : Nat) (x : Address) (k : Nat) : Prop :=
  ∃ a, b.attempt k = some a ∧ a.dialer = some n ∧ a.address = x ∧ a.isPending = true

theorem IsDialing.address_eq (h : b.IsDialing n x k) (ha : b.attempt k = some a) :
    a.address = x := by
  obtain ⟨a', ha', _, haddress, _⟩ := h
  cases ha.symm.trans ha'
  exact haddress

theorem isDialing_putAttempt (ha : b.attempt k = some a) (hdialer : a'.dialer = a.dialer)
    (haddress : a'.address = a.address) (hpending : a'.isPending = a.isPending) :
    (b.putAttempt k a').IsDialing n x k' ↔ b.IsDialing n x k' := by
  unfold IsDialing
  rw [attempt_putAttempt]
  split
  · next heq =>
    subst heq
    simp only [ha, Option.some.injEq, exists_eq_left', hdialer, haddress, hpending]
  · rfl

theorem isDialing_of_enter (h : (b.enter free a).IsDialing n x k) :
    b.IsDialing n x k ∨ (a.dialer = some n ∧ x = a.address ∧ k = b.nextNumber) := by
  obtain ⟨a', ha', hdialer, haddress, hpending⟩ := h
  rw [attempt_enter] at ha'
  split at ha'
  · next heq =>
    cases ha'
    exact Or.inr ⟨hdialer, haddress.symm, heq⟩
  · exact Or.inl ⟨a', ha', hdialer, haddress, hpending⟩

theorem isDialing_enter (hnew : b.attempt b.nextNumber = none) (hpending : a.isPending = true) :
    (b.enter free a).IsDialing n x k
      ↔ b.IsDialing n x k ∨ (a.dialer = some n ∧ x = a.address ∧ k = b.nextNumber) := by
  refine ⟨isDialing_of_enter, ?_⟩
  rintro (⟨a', ha', hrest⟩ | ⟨hdialer, haddress, rfl⟩)
  · refine ⟨a', ?_, hrest⟩
    have hne : k ≠ b.nextNumber := by
      rintro rfl
      cases hnew.symm.trans ha'
    rw [attempt_enter, if_neg hne, ha']
  · exact ⟨_, (attempt_enter b free _ a).trans (if_pos rfl), hdialer, haddress.symm, hpending⟩

theorem isDialing_close (link : Link) :
    (b.close k a link).IsDialing n x k' ↔ k' ≠ k ∧ b.IsDialing n x k' := by
  unfold IsDialing
  rw [attempt_close]
  split
  · next heq =>
    constructor
    · rintro ⟨a', ha', _, _, hpending⟩
      cases ha'
      cases hpending
    · rintro ⟨hne, _⟩
      exact absurd heq hne
  · next hne => exact (and_iff_right hne).symm

/-- Every session that has not been shut down notes what is being dialed for it. -/
structure DialsKept (options : SwarmOptions) (b : Books) : Prop where
  slots : SlotsKept options b
  numbered : b.Numbered
  dialer : ∀ k a n, b.attempt k = some a → a.dialer = some n → n < b.nextNumber
  discovered : ∀ n s, b.session n = some s → s.discovered.Nodup
  mirrors : ∀ n s, b.session n = some s → s.cancelled = false → s.Mirrors (b.IsDialing n)

theorem DialsKept.putSession (h : DialsKept options b) (hs : b.session n = some s)
    (hdiscovered : s'.discovered.Nodup) (hconnecting : s'.connecting = s.connecting)
    (hcancelled : s'.cancelled = false → s.cancelled = false) :
    DialsKept options (b.putSession n s') where
  slots := h.slots.withSessions _
  numbered := h.numbered.putSession hs s'
  dialer := h.dialer
  discovered := by
    intro n' s₀ hget
    rcases session_of_putSession hget with ⟨_, rfl⟩ | ⟨_, hs₀⟩
    · exact hdiscovered
    · exact h.discovered n' s₀ hs₀
  mirrors := by
    intro n' s₀ hget hlive
    rcases session_of_putSession hget with ⟨rfl, rfl⟩ | ⟨_, hs₀⟩
    · exact (h.mirrors _ s hs (hcancelled hlive)).congr hconnecting fun _ _ => Iff.rfl
    · exact h.mirrors n' s₀ hs₀ hlive

/-- A new session has nothing to note, because nobody dials for it. -/
theorem DialsKept.found (h : DialsKept options b) (hdiscovered : s.discovered = [])
    (hconnecting : s.connecting = []) : DialsKept options (b.found s) where
  slots := h.slots.found s
  numbered := h.numbered.found s
  dialer := fun k a n ha hn => Nat.lt_succ_of_lt (h.dialer k a n ha hn)
  discovered := by
    intro n s₀ hget
    have hput : (b.putSession b.nextNumber s).session n = some s₀ := hget
    rcases session_of_putSession hput with ⟨_, rfl⟩ | ⟨_, hs₀⟩
    · exact hdiscovered ▸ List.nodup_nil
    · exact h.discovered n s₀ hs₀
  mirrors := by
    intro n s₀ hget hlive
    have hput : (b.putSession b.nextNumber s).session n = some s₀ := hget
    rcases session_of_putSession hput with ⟨rfl, rfl⟩ | ⟨_, hs₀⟩
    · have hnobody : ∀ x k, ¬ b.IsDialing b.nextNumber x k := by
        rintro x k ⟨a, ha, hdialer, _⟩
        exact Nat.lt_irrefl _ (h.dialer k a _ ha hdialer)
      refine ⟨hconnecting ▸ List.nodup_nil, fun x => ?_, fun x k k' hk => absurd hk (hnobody x k)⟩
      rw [hconnecting]
      exact ⟨fun hx => absurd hx List.not_mem_nil, fun ⟨k, hk⟩ => absurd hk (hnobody x k)⟩
    · exact h.mirrors n s₀ hs₀ hlive

theorem DialsKept.put (h : DialsKept options b) (hslots : SlotsKept options (b.putAttempt k a'))
    (ha : b.attempt k = some a) (hdialer : a'.dialer = a.dialer) (haddress : a'.address = a.address)
    (hpending : a'.isPending = a.isPending) : DialsKept options (b.putAttempt k a') where
  slots := hslots
  numbered := h.numbered
  dialer := by
    intro k' a₀ n ha₀ hn
    rw [attempt_putAttempt] at ha₀
    split at ha₀
    · cases ha₀
      exact h.dialer k a n ha (hdialer ▸ hn)
    · exact h.dialer k' a₀ n ha₀ hn
  discovered := h.discovered
  mirrors := fun n s hs hlive => (h.mirrors n s hs hlive).congr rfl fun _ _ =>
    isDialing_putAttempt ha hdialer haddress hpending

theorem DialsKept.accept (h : DialsKept options b) (hdialer : a.dialer = none)
    (hpending : a.isPending = true) (hfree : b.freeSlots = free + 1) :
    DialsKept options (b.enter free a) where
  slots := h.slots.enter hpending hfree
  numbered := h.numbered.enter free a
  dialer := by
    intro k a₀ n ha₀ hn
    rw [attempt_enter] at ha₀
    split at ha₀
    · cases ha₀
      cases hdialer.symm.trans hn
    · exact Nat.lt_succ_of_lt (h.dialer k a₀ n ha₀ hn)
  discovered := h.discovered
  mirrors := fun n s hs hlive => (h.mirrors n s hs hlive).congr rfl fun x k => by
    rw [isDialing_enter h.slots.attempt_nextNumber hpending, hdialer]
    simp only [reduceCtorEq, false_and, or_false]

theorem DialsKept.close (h : DialsKept options b) (ha : b.attempt k = some a)
    (hopen : a.isOpen = true) (link : Link) : DialsKept options (b.close k a link) where
  slots := h.slots.close ha link
  numbered := by
    have hfinished : (b.finish k a link).Numbered := h.numbered
    exact hfinished.settle a
  dialer := by
    intro k' a₀ n ha₀ hn
    rw [attempt_close] at ha₀
    split at ha₀
    · cases ha₀
      exact h.dialer k a n ha hn
    · exact h.dialer k' a₀ n ha₀ hn
  discovered := by
    intro n s hget
    rcases session_of_settle hget with ⟨_, s₀, hs₀, rfl⟩ | ⟨_, hs⟩
    · exact h.discovered n s₀ hs₀
    · exact h.discovered n s hs
  mirrors := by
    intro n s hget hlive
    rcases session_of_settle hget with ⟨hdialer, s₀, hs₀, rfl⟩ | ⟨hother, hs⟩
    · have hpending : a.isPending = true := (h.slots.holding k a ha).isOpen_eq ▸ hopen
      have hdone := (h.mirrors n s₀ hs₀ hlive).done ⟨a, ha, hdialer, rfl, hpending⟩
        fun x' hx' => (hx'.address_eq ha).symm
      exact hdone.congr rfl fun x' k' => isDialing_close link
    · refine (h.mirrors n s hs hlive).congr rfl fun x' k' => ?_
      rw [isDialing_close]
      refine and_iff_right_of_imp ?_
      rintro ⟨a', ha', hdialer, _⟩ rfl
      cases ha.symm.trans ha'
      exact hother hdialer

theorem DialsKept.dials (h : DialsKept options b) (hdials : b.Dials b') : DialsKept options b' := by
  have hslots := h.slots.dials hdials
  cases hdials with
  | dial n s x free giveUp hs hmay hfree =>
      have hnew := h.slots.attempt_nextNumber
      refine ⟨hslots, (h.numbered.enter free _).putSession hs _, fun k a₀ n' ha₀ hn => ?_,
        fun n' s₀ hget => ?_, fun n' s₀ hget hlive => ?_⟩
      · have hget := (attempt_enter b free k _).symm.trans ha₀
        split at hget
        · cases hget
          cases hn
          exact Nat.lt_succ_of_lt (h.numbered n s hs)
        · exact Nat.lt_succ_of_lt (h.dialer k a₀ n' hget hn)
      · rcases session_of_putSession hget with ⟨_, rfl⟩ | ⟨_, hs₀⟩
        · exact h.discovered n s hs
        · exact h.discovered n' s₀ hs₀
      · have hiff : ∀ x' k', (b.enter free (dialing n x giveUp)).IsDialing n' x' k' ↔
            b.IsDialing n' x' k' ∨ (some n = some n' ∧ x' = x ∧ k' = b.nextNumber) :=
          fun x' k' => isDialing_enter hnew rfl
        rcases session_of_putSession hget with ⟨rfl, rfl⟩ | ⟨hne, hs₀⟩
        · have hstart := (h.mirrors n' s hs hlive).start (k := b.nextNumber)
            (hmay.idle (h.discovered n' s hs))
          refine hstart.congr rfl fun x' k' => (hiff x' k').trans ?_
          simp only [true_and]
        · refine (h.mirrors n' s₀ hs₀ hlive).congr rfl fun x' k' => (hiff x' k').trans ?_
          simp only [Option.some.injEq, Ne.symm hne, false_and, or_false]

theorem DialsKept.course (h : DialsKept options b) (ha : b.attempt k = some a)
    (hopen : a.isOpen = true) (hcourse : b.Course k a b') : DialsKept options b' := by
  have hslots := h.slots.course ha hopen hcourse
  cases hcourse with
  | goesOn a' haddress hdialer hholds hpending =>
      have hbefore : a.isPending = true := (h.slots.holding k a ha).isOpen_eq ▸ hopen
      exact h.put hslots ha hdialer haddress (hpending.trans hbefore.symm)
  | abandoned link => exact h.close ha hopen link
  | promoted now taker s s' link hand buffer hs hadd =>
      have hbook := Session.addressBook_addPeer hadd
      obtain ⟨_, _, hregister⟩ := Session.register_addPeer hadd
      have hcancelled : s'.cancelled = s.cancelled := congrArg Register.cancelled hregister
      have hdiscovered : s'.discovered = s.discovered := congrArg AddressBook.discovered hbook
      have htaken := h.putSession hs (hdiscovered ▸ h.discovered taker s hs)
        (congrArg AddressBook.connecting hbook) fun hlive => hcancelled.symm.trans hlive
      exact htaken.close ha hopen link

theorem DialsKept.stride (h : DialsKept options b) (hstride : b.Stride b') :
    DialsKept options b' := by
  have hslots := h.slots.stride hstride
  cases hstride with
  | session now n s s' event hs hplain hstep =>
      refine h.putSession hs (Session.nodup_discovered_of_happen hstep (h.discovered n s hs))
        (Session.connecting_of_isPlain hplain hstep) fun hlive => ?_
      rw [Bool.eq_false_iff]
      intro hshut
      cases hlive.symm.trans (Session.cancelled_of_shift (Session.shift_of_happen hstep) hshut)
  | checked n s owned hs => exact h.putSession hs (h.discovered n s hs) rfl id
  | founded t s hmake =>
      have hbook := Session.addressBook_of_make hmake
      exact h.found (congrArg AddressBook.discovered hbook) (congrArg AddressBook.connecting hbook)
  | accepted a free hdialer hpending hfree => exact h.accept hdialer hpending hfree
  | attended k a b' ha hopen hcourse => exact h.course ha hopen hcourse
  | relinked k a link ha => exact h.put hslots ha rfl rfl rfl

theorem isDialing_of_stride (h : SlotsKept options b) (hstride : b.Stride b')
    (hdialing : b'.IsDialing n x k) : b.IsDialing n x k := by
  cases hstride with
  | accepted a free hdialer hpending hfree =>
      rcases isDialing_of_enter hdialing with hold | ⟨hnew, _⟩
      · exact hold
      · cases hdialer.symm.trans hnew
  | attended k a b' ha hopen hcourse =>
      have hpending : a.isPending = true := (h.holding k a ha).isOpen_eq ▸ hopen
      cases hcourse with
      | goesOn a' haddress hdialer hholds hpending' =>
          exact (isDialing_putAttempt ha hdialer haddress (hpending'.trans hpending.symm)).mp hdialing
      | abandoned link => exact ((isDialing_close link).mp hdialing).2
      | promoted now taker s s' link hand buffer hs hadd =>
          exact ((isDialing_close link).mp hdialing).2
  | relinked k₀ a link ha =>
      have hsame : (b.putAttempt k₀ { a with link := link }).IsDialing n x k ↔ b.IsDialing n x k :=
        isDialing_putAttempt ha rfl rfl rfl
      exact hsame.mp hdialing
  | _ => exact hdialing

end Books

/-! ### Passes -/

/-- The session may dial this address as soon as it has been swept. -/
structure Session.Dialable (s : Session) (x : Address) : Prop where
  unpaused : s.paused = false
  unfinished : s.isFinished = false
  discovered : x ∈ s.discovered
  idle : x ∉ s.connecting
  unconnected : ∀ peerId number m, (peerId, number) ∈ s.removeFinishedPeers.peers.entries →
    s.members.get? number = some m → m.connection.address ≠ x

/-- What a pass leaves of a session. One that is at work keeps all its peers but those that were
closed out. -/
structure Session.Tended (bound : Nat) (s s' : Session) : Prop where
  paused_eq : s'.paused = s.paused
  active : s.paused = false → ∃ peers more,
    s' = { s with peers := peers, connecting := s.connecting ++ more }
      ∧ ∀ e ∈ s.removeFinishedPeers.peers.entries, e ∈ peers.entries
  room : s'.peers.size + s'.connecting.length ≤ max bound (s.peers.size + s.connecting.length)

namespace Session

variable {s s' : Session} {bound : Nat} {x : Address}

theorem Tended.refl (bound : Nat) (s : Session) : s.Tended bound s where
  paused_eq := rfl
  active := fun _ => ⟨s.peers, [], by rw [List.append_nil], fun _ he => (List.mem_filter.mp he).1⟩
  room := Nat.le_max_right _ _

theorem Tended.swept (h : s.Tended bound s') : s.Tended bound s'.removeFinishedPeers where
  paused_eq := h.paused_eq
  active := by
    intro hactive
    obtain ⟨peers, more, rfl, hkept⟩ := h.active hactive
    exact ⟨_, more, rfl, fun e he => List.mem_filter.mpr ⟨hkept e he, (List.mem_filter.mp he).2⟩⟩
  room := by
    have hless : s'.removeFinishedPeers.peers.size ≤ s'.peers.size := List.length_filter_le _ _
    have hroom := h.room
    show s'.removeFinishedPeers.peers.size + s'.connecting.length ≤ _
    omega

theorem Tended.dropped (h : s.Tended bound s') (hpaused : s'.paused = true) :
    s.Tended bound s'.dropAllPeers where
  paused_eq := (paused_foldl_disconnect s'.peers.values s').trans h.paused_eq
  active := fun hactive => by cases (h.paused_eq.symm.trans hpaused).symm.trans hactive
  room := by
    have hconnecting : s'.dropAllPeers.connecting = s'.connecting :=
      congrArg AddressBook.connecting (addressBook_dropAllPeers s')
    have hroom := h.room
    show 0 + s'.dropAllPeers.connecting.length ≤ _
    rw [hconnecting]
    omega

theorem Tended.dialed (h : s.Tended bound s') (hmay : s'.MayDial bound x) :
    s.Tended bound (s'.startConnecting x) where
  paused_eq := h.paused_eq
  active := by
    intro hactive
    obtain ⟨peers, more, rfl, hkept⟩ := h.active hactive
    exact ⟨peers, more ++ [x], by rw [startConnecting, List.append_assoc], hkept⟩
  room := by
    have hroom := hmay.room
    show s'.peers.size + (s'.connecting ++ [x]).length ≤ _
    rw [List.length_append, List.length_singleton]
    omega

theorem Tended.dialable (h : s.Tended bound s') (hnodup : s.discovered.Nodup)
    (hmay : s'.MayDial bound x) : s.Dialable x := by
  have hactive : s.paused = false := h.paused_eq.symm.trans hmay.unpaused
  obtain ⟨peers, more, rfl, hkept⟩ := h.active hactive
  exact ⟨hactive, hmay.unfinished, hmay.discovered,
    fun hx => hmay.idle hnodup (List.mem_append_left more hx),
    fun peerId number m he => hmay.unconnected peerId number m (hkept _ he)⟩

end Session

namespace Swarm

open Books

variable {b b' : Books} {n k : Nat} {x : Address}

theorem tended_of_passes (h : Passes b b') :
    b'.options = b.options ∧ ∀ n s', b'.session n = some s' →
      ∃ s, b.session n = some s ∧ s.Tended b.options.maxPeersPerTorrent s' := by
  induction h with
  | refl => exact ⟨rfl, fun n s hs => ⟨s, hs, .refl _ s⟩⟩
  | @tail b₁ b₂ _ hstride ih =>
      obtain ⟨hoptions, htended⟩ := ih
      -- A stride changes one session.
      have hput : ∀ number s₁ s₂, b₁.session number = some s₁ →
          (∀ s : Session, s.Tended b.options.maxPeersPerTorrent s₁ →
            s.Tended b.options.maxPeersPerTorrent s₂) →
          ∀ n s', (b₁.putSession number s₂).session n = some s' →
            ∃ s, b.session n = some s ∧ s.Tended b.options.maxPeersPerTorrent s' := by
        intro number s₁ s₂ hs₁ hnext n s' hs'
        rcases session_of_putSession hs' with ⟨rfl, rfl⟩ | ⟨_, hs'⟩
        · obtain ⟨s, hs, h⟩ := htended _ s₁ hs₁
          exact ⟨s, hs, hnext s h⟩
        · exact htended n s' hs'
      refine ⟨?_, ?_⟩
      · cases hstride with
        | dialed b₂ hdials =>
            cases hdials
            exact hoptions
        | _ => exact hoptions
      · cases hstride with
        | swept number s₁ hs₁ hactive => exact hput number s₁ _ hs₁ fun _ h => h.swept
        | dropped number s₁ hs₁ hpaused => exact hput number s₁ _ hs₁ fun _ h => h.dropped hpaused
        | dialed b₂ hdials =>
            cases hdials with
            | dial number s₁ x free giveUp hs₁ hmay hfree =>
                exact hput number s₁ _ hs₁ fun _ h => h.dialed (hoptions ▸ hmay)

/-- Whom a pass dials could be dialed when the pass began. -/
theorem dialable_of_passes (hnodup : ∀ n s, b.session n = some s → s.discovered.Nodup)
    (h : Passes b b') (hdialing : b'.IsDialing n x k) :
    b.IsDialing n x k ∨ ∃ s, b.session n = some s ∧ s.Dialable x := by
  induction h with
  | refl => exact Or.inl hdialing
  | @tail b₁ b₂ hpasses hstride ih =>
      cases hstride with
      | swept number s₁ hs₁ hactive => exact ih hdialing
      | dropped number s₁ hs₁ hpaused => exact ih hdialing
      | dialed b₂ hdials =>
          cases hdials with
          | dial number s₁ x₁ free giveUp hs₁ hmay hfree =>
              have hentered : (b₁.enter free (dialing number x₁ giveUp)).IsDialing n x k := hdialing
              rcases isDialing_of_enter hentered with hold | ⟨hn, rfl, _⟩
              · exact ih hold
              · cases hn
                obtain ⟨hoptions, htended⟩ := tended_of_passes hpasses
                obtain ⟨s, hs, h⟩ := htended n s₁ hs₁
                exact Or.inr ⟨s, hs, h.dialable (hnodup n s hs) (hoptions ▸ hmay)⟩

theorem isDialing_of_strides {options : SwarmOptions} (hslots : SlotsKept options b)
    (h : Strides b b') (hdialing : b'.IsDialing n x k) : b.IsDialing n x k := by
  induction h using Relation.ReflTransGen.head_induction_on with
  | refl => exact hdialing
  | head hstride _ ih => exact isDialing_of_stride hslots hstride (ih (hslots.stride hstride))

/-! ### Runs -/

variable {w w' : Swarm} {peerId : Identifier} {options : SwarmOptions} {start now : Nanoseconds}
  {events : List (Nanoseconds × Event)}

def IsDialing (w : Swarm) (n : Nat) (x : Address) (k : Nat) : Prop :=
  ∃ a, w.attempts.get? k = some a ∧ a.dialer = some n ∧ a.address = x ∧ a.isPending = true

theorem dialsKept_make (peerId : Identifier) (options : SwarmOptions) (start : Nanoseconds) :
    DialsKept options (make peerId options start).books where
  slots := slotsKept_make peerId options start
  numbered := fun _ _ h => nomatch h
  dialer := fun _ _ _ h => nomatch h
  discovered := fun _ _ h => nomatch h
  mirrors := fun _ _ h => nomatch h

theorem dialsKept_run (hrun : run? events (make peerId options start) = some w) :
    DialsKept options w.books :=
  run_invariant DialsKept.stride DialsKept.dials (dialsKept_make peerId options start) hrun

/-- In every run a session that has not been shut down notes just the addresses it is dialing, and
dials each of them once. What is newly dialed was heard of by a session that is neither paused nor
finished and has no peer there, and a pass leaves no session with more peers and addresses being
dialed than its bound, unless there were more before. -/
theorem dials_are_noted (hrun : run? events (make peerId options start) = some w) :
    (∀ n s, w.sessions.get? n = some s → s.cancelled = false →
        s.connecting.Nodup
          ∧ (∀ x, x ∈ s.connecting ↔ ∃ k, w.IsDialing n x k)
          ∧ ∀ x k k', w.IsDialing n x k → w.IsDialing n x k' → k = k')
      ∧ (∀ now event w', w.happen? now event = some w' → ∀ n x k, w'.IsDialing n x k →
        w.IsDialing n x k ∨ ∃ s, w.sessions.get? n = some s ∧ s.Dialable x)
      ∧ ∀ now event w', event = .reconcile ∨ event = .own .reconcile →
        w.happen? now event = some w' → ∀ n s', w'.sessions.get? n = some s' →
          ∃ s, w.sessions.get? n = some s ∧ s'.peers.size + s'.connecting.length
            ≤ max options.maxPeersPerTorrent (s.peers.size + s.connecting.length) := by
  have hkept := dialsKept_run hrun
  refine ⟨fun n s hs hlive => ?_, fun now event w' hstep n x k hdialing => ?_, ?_⟩
  · obtain ⟨hnodup, hmem, hunique⟩ := hkept.mirrors n s hs hlive
    exact ⟨hnodup, hmem, hunique⟩
  · rcases passes_or_strides hstep with hpass | hstrides
    · exact dialable_of_passes hkept.discovered hpass hdialing
    · exact Or.inl (isDialing_of_strides hkept.slots hstrides hdialing)
  · intro now event w' hpass hstep n s' hs'
    have hpasses : Passes w.books w'.books := by
      rcases hpass with rfl | rfl
      · cases hstep
        exact passes_reconcile w now
      · exact passes_reconcile? hstep
    obtain ⟨s, hs, htended⟩ := (tended_of_passes hpasses).2 n s' hs'
    have hbound : w.options.maxPeersPerTorrent = options.maxPeersPerTorrent :=
      congrArg SwarmOptions.maxPeersPerTorrent hkept.slots.options_eq
    exact ⟨s, hs, hbound ▸ htended.room⟩

/-- A torrent with one address that was heard of, and a pass. -/
def dialsOnce : List (Nanoseconds × Event) :=
  ([.beginAdd { Session.twoPieces with initial := .nothing }, .finishAdd 0,
    .addAddress .zero ⟨.v4 [127, 0, 0, 1], 6881⟩, .reconcile] : List Event).map fun event => (0, event)

/-- After the pass the address is noted, and there is an attempt that dials it. -/
theorem dials_are_noted_dialsOnce : ∃ w s k, run? dialsOnce (make .zero {} 0) = some w
    ∧ w.sessions.get? 0 = some s ∧ s.cancelled = false
    ∧ s.connecting = [⟨.v4 [127, 0, 0, 1], 6881⟩]
    ∧ w.IsDialing 0 ⟨.v4 [127, 0, 0, 1], 6881⟩ k := by
  have hdone : (run? dialsOnce (make .zero {} 0)).any (fun w => (w.sessions.get? 0).any fun s =>
      decide (s.cancelled = false ∧ s.connecting = [⟨.v4 [127, 0, 0, 1], 6881⟩])) = true := by
    decide +kernel
  obtain ⟨w, hrun, htest⟩ := (Option.any_eq_true _ _).mp hdone
  obtain ⟨s, hs, htest⟩ := (Option.any_eq_true _ _).mp htest
  obtain ⟨hlive, hconnecting⟩ := of_decide_eq_true htest
  obtain ⟨-, hmem, -⟩ := (dials_are_noted hrun).1 0 s hs hlive
  obtain ⟨k, hk⟩ := (hmem _).mp (by rw [hconnecting]; exact List.mem_singleton_self _)
  exact ⟨w, s, k, hrun, hs, hlive, hconnecting, hk⟩

end Swarm

end TorrentCore
