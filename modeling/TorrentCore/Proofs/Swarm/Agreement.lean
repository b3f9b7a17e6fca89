import TorrentCore.Proofs.Session.Listing
import TorrentCore.Proofs.Swarm.Talk
import TorrentCore.Proofs.Swarm.Verdicts

/-!
# What holds while two swarms dial each other

`Holds` is kept by every move. On each side it says what the session knows of the other one; and of
the two sockets it says how the talk on each has come along, that who decides what obeys `Fair`, and
that no connection ends unless the other side has refused it. A side refuses a socket only while it
lists another connection to the other side, and that is the other one of the two sockets.
-/

namespace TorrentCore

namespace MutualDial

variable {k : MutualDial} {ids : Side → Identifier} {p p' : Side → Swarm}

/-! ### One side -/

/-- A swarm that serves the torrent, with the connections to the other side that it has. -/
structure Home (k : MutualDial) (ids : Side → Identifier) (side : Side) (w : Swarm) : Prop where
  peerId_eq : w.peerId = ids side
  serves : w.torrents.get? k.infoHash = some (k.session side)
  register_eq : ∃ r, w.register? (k.session side) = some r ∧ r.infoHash = k.infoHash
    ∧ r.ownId = ids side ∧ r.paused = false
    ∧ r.Lists (ids side.other) fun n => ∃ dialer, n = k.number side dialer

theorem Home.congr {side : Side} {w w' : Swarm} (h : k.Home ids side w)
    (hpeer : w'.peerId = w.peerId)
    (htorrents : w'.torrents.get? k.infoHash = w.torrents.get? k.infoHash)
    (hregister : w'.register? (k.session side) = w.register? (k.session side)) :
    k.Home ids side w' :=
  ⟨hpeer.trans h.peerId_eq, htorrents.trans h.serves, hregister ▸ h.register_eq⟩

theorem Home.isServed {side : Side} {w : Swarm} (h : k.Home ids side w) :
    w.isServed k.infoHash = true := by
  obtain ⟨r, hr, _, _, hpaused, _⟩ := h.register_eq
  rw [Swarm.isServed_eq h.serves hr, hpaused]
  rfl

theorem Home.takes {side : Side} {w : Swarm} (h : k.Home ids side w) {dialer : Option Nat}
    (hdialer : dialer = some (k.session side) ∨ dialer = none) (peerId : Identifier) :
    w.Takes (k.session side) dialer (.plain k.infoHash peerId) := by
  obtain ⟨r, hr, _, _, hpaused, _⟩ := h.register_eq
  refine ⟨hdialer.imp_right fun hnone => ⟨hnone, h.serves⟩, fun r' hr' => ?_⟩
  cases hr.symm.trans hr'
  exact hpaused

/-! ### Both sides -/

/-- How far two sockets have come on both sides. -/
structure Agree (k : MutualDial) (ids : Side → Identifier) (st : Side → Side → Stage) : Prop where
  talk : ∀ dialer, Talk k.infoHash (ids dialer) (ids dialer.other) (k.session dialer)
    (st dialer dialer) (st dialer.other dialer)
  fair : Fair fun side dialer => (st side dialer).verdict?
  /-- A connection ends only if the other side has refused it. -/
  ended : ∀ side dialer d, st side dialer = .taken d → d.hasEnded = true →
    (st side.other dialer).verdict? = some .refused

theorem Agree.goesOn {st st' : Side → Side → Stage} (h : k.Agree ids st)
    (htalk : ∀ dialer, Talk k.infoHash (ids dialer) (ids dialer.other) (k.session dialer)
      (st' dialer dialer) (st' dialer.other dialer))
    (hverdict : ∀ side dialer, (st' side dialer).verdict? = (st side dialer).verdict?)
    (hended : ∀ side dialer d, st' side dialer = .taken d → d.hasEnded = true →
      (∃ d', st side dialer = .taken d' ∧ d'.hasEnded = true)
        ∨ (st side.other dialer).verdict? = some .refused) : k.Agree ids st' := by
  refine ⟨htalk, ?_, fun side dialer d htaken hd => ?_⟩
  · have hsame : (fun side dialer => (st' side dialer).verdict?)
        = fun side dialer => (st side dialer).verdict? := by
      funext side dialer
      exact hverdict side dialer
    rw [hsame]
    exact h.fair
  · rw [hverdict]
    rcases hended side dialer d htaken hd with ⟨d', htaken', hd'⟩ | hrefused
    · exact h.ended side dialer d' htaken' hd'
    · exact hrefused

/-- A side decides about one socket: it refuses it having taken the other one, or takes it. -/
theorem Agree.decides {st st' : Side → Side → Stage} (h : k.Agree ids st) {side dialer : Side}
    (hopen : (st side dialer).verdict? = none)
    (htalk : ∀ dialer, Talk k.infoHash (ids dialer) (ids dialer.other) (k.session dialer)
      (st' dialer dialer) (st' dialer.other dialer))
    (hsame : ∀ side' dialer', side' = side ∧ dialer' = dialer
      ∨ st' side' dialer' = st side' dialer')
    (horder : side = dialer → (st dialer.other dialer).verdict? ≠ none)
    (hnew : ((st' side dialer).verdict? = some .refused
        ∧ (st side dialer.other).verdict? = some .taken)
      ∨ (∃ d, st' side dialer = .taken d ∧ d.hasEnded = false
        ∧ ((st side dialer.other).verdict? = some .taken →
          (st side.other dialer.other).verdict? = some .refused))) : k.Agree ids st' := by
  have hverdicts : ∀ side' dialer', side' = side ∧ dialer' = dialer
      ∨ (st' side' dialer').verdict? = (st side' dialer').verdict? := fun side' dialer' =>
    (hsame side' dialer').imp_right (congrArg Stage.verdict?)
  have hnew' : ((st' side dialer).verdict? = some .refused
        ∧ (st side dialer.other).verdict? = some .taken)
      ∨ ((st' side dialer).verdict? = some .taken
        ∧ ((st side dialer.other).verdict? = some .taken →
          (st side.other dialer.other).verdict? = some .refused)) := by
    refine hnew.imp_right fun ⟨d, htaken, _, hthen⟩ => ⟨?_, hthen⟩
    rw [htaken]
    rfl
  refine ⟨htalk, ?_, fun side' dialer' d htaken hd => ?_⟩
  · rcases Side.eq_or_other_eq side dialer with rfl | rfl
    · exact h.fair.dialer_decides hopen hverdicts (horder rfl) hnew'
    · rw [Side.other_other] at hnew'
      exact h.fair.acceptor_decides hopen hverdicts hnew'
  · rcases hsame side' dialer' with ⟨rfl, rfl⟩ | hold
    · rcases hnew with ⟨hrefused, _⟩ | ⟨d', htaken', hlive, _⟩
      · rw [htaken] at hrefused
        cases hrefused
      · cases htaken.symm.trans htaken'
        exact Bool.noConfusion (hlive.symm.trans hd)
    · have hrefused := h.ended side' dialer' d (hold.symm.trans htaken) hd
      rcases hverdicts side'.other dialer' with ⟨hside, rfl⟩ | hsame'
      · rw [hside, hopen] at hrefused
        cases hrefused
      · rw [hsame', hrefused]

/-- What holds of both swarms whatever has happened so far. -/
structure Holds (k : MutualDial) (ids : Side → Identifier) (p : Side → Swarm) : Prop where
  ids_ne : ∀ side, ids side.other ≠ ids side
  number_ne : ∀ side dialer, k.number side dialer.other ≠ k.number side dialer
  home : ∀ side, k.Home ids side (p side)
  agree : k.Agree ids (k.stage p)

theorem put_same (p : Side → Swarm) (side : Side) (w : Swarm) : put p side w side = w := if_pos rfl

theorem put_other {side side' : Side} (p : Side → Swarm) (w : Swarm) (h : side' ≠ side) :
    put p side w side' = p side' := if_neg h

theorem stage_put_same (k : MutualDial) (p : Side → Swarm) (side dialer : Side) (w : Swarm) :
    k.stage (put p side w) side dialer = w.stage (k.session side) (k.number side dialer) := by
  rw [stage, put_same]

theorem stage_put_other (k : MutualDial) {side side' : Side} (p : Side → Swarm) (dialer : Side)
    (w : Swarm) (h : side' ≠ side) :
    k.stage (put p side w) side' dialer = k.stage p side' dialer := by
  rw [stage, put_other p w h, stage]

theorem Holds.home_put (h : k.Holds ids p) {side : Side} {w : Swarm} (hhome : k.Home ids side w) :
    ∀ side', k.Home ids side' (put p side w side') := by
  intro side'
  by_cases heq : side' = side
  · subst heq
    rw [put_same]
    exact hhome
  · rw [put_other p w heq]
    exact h.home side'

/-! ### Exchanges -/

/-- One end of a socket may go over to another stage: the talk on both sockets goes on. -/
def Fits (k : MutualDial) (ids : Side → Identifier) (st : Side → Side → Stage) (side dialer : Side)
    (new : Stage) : Prop :=
  ∀ st' : Side → Side → Stage, (∀ side' dialer', side' = side ∧ dialer' = dialer
      ∨ st' side' dialer' = st side' dialer') → st' side dialer = new →
    ∀ dialer', Talk k.infoHash (ids dialer') (ids dialer'.other) (k.session dialer')
      (st' dialer' dialer') (st' dialer'.other dialer')

theorem Agree.fits_dialer {st : Side → Side → Stage} (h : k.Agree ids st) {side : Side}
    {new : Stage}
    (htalk : Talk k.infoHash (ids side) (ids side.other) (k.session side) new (st side.other side)) :
    k.Fits ids st side side new := by
  intro st' hsame hnew dialer
  rcases Side.eq_or_other_eq side dialer with rfl | rfl
  · rw [hnew, (hsame side.other side).resolve_left fun heq => Side.other_ne side heq.1]
    exact htalk
  · rw [(hsame side.other side.other).resolve_left fun heq => Side.other_ne side heq.1,
      (hsame side.other.other side.other).resolve_left fun heq => Side.other_ne side heq.2]
    exact h.talk side.other

theorem Agree.fits_acceptor {st : Side → Side → Stage} (h : k.Agree ids st) {dialer : Side}
    {new : Stage} (htalk : Talk k.infoHash (ids dialer) (ids dialer.other) (k.session dialer)
      (st dialer dialer) new) : k.Fits ids st dialer.other dialer new := by
  intro st' hsame hnew dialer'
  rcases Side.eq_or_other_eq dialer dialer' with rfl | rfl
  · rw [hnew, (hsame dialer dialer).resolve_left fun heq => Side.ne_other dialer heq.1]
    exact htalk
  · rw [(hsame dialer.other dialer.other).resolve_left fun heq => Side.other_ne dialer heq.2,
      (hsame dialer.other.other dialer.other).resolve_left fun heq => Side.other_ne dialer heq.2]
    exact h.talk dialer.other

/-- An exchange goes on or ends with the handshake of the other side. Then its side may decide as it
likes, and if it has dialed the other one has decided. -/
theorem Agree.step {st : Side → Side → Stage} (h : k.Agree ids st) {side dialer : Side}
    {served : Identifier → Bool} {now : Nanoseconds} {number : Option Nat} {x x' : Exchange}
    {l l' : Link} (hst : st side dialer = .exchanging number x l)
    (hserved : served k.infoHash = true) (htime : now < x.deadline.ceilMilliseconds)
    (hstep : x.step? served now l = some (x', l')) :
    (number = some (k.session side) ∨ number = none)
      ∧ ((x'.result? = none ∧ k.Fits ids st side dialer (.exchanging number x' l'))
        ∨ (x'.result? = some (.ok (.plain k.infoHash (ids side.other)))
          ∧ (∀ d : Duty, d.link = l' → k.Fits ids st side dialer (.taken d))
          ∧ k.Fits ids st side dialer (.refused l'.hangUp)
          ∧ (side = dialer → (st dialer.other dialer).verdict? ≠ none))) := by
  rcases Side.eq_or_other_eq dialer side with rfl | rfl
  · have htalk := h.talk dialer
    rw [hst] at htalk
    refine ⟨Or.inl htalk.dialer_eq, ?_⟩
    rcases htalk.dialer_step htime hstep with ⟨hresult, hnext⟩ | ⟨hresult, hover⟩
    · exact Or.inl ⟨hresult, h.fits_dialer hnext⟩
    · refine Or.inr ⟨hresult, fun d _ => h.fits_dialer ?_, h.fits_dialer ?_, fun _ => hover⟩
      · exact .decided _ _ nofun hover
      · exact .decided _ _ nofun hover
  · have htalk := h.talk dialer
    rw [hst] at htalk
    refine ⟨Or.inr htalk.acceptor_eq, ?_⟩
    rw [Side.other_other]
    rcases htalk.acceptor_step hserved htime hstep with ⟨hresult, hnext⟩ | ⟨hresult, htaken, hrefused⟩
    · exact Or.inl ⟨hresult, h.fits_acceptor hnext⟩
    · exact Or.inr ⟨hresult, fun d hd => h.fits_acceptor (htaken d hd), h.fits_acceptor hrefused,
        fun heq => absurd heq (Side.other_ne dialer)⟩

theorem exchanging_of_inTime {st : Stage} {now : Nanoseconds} (h : st.inTime now = true) :
    ∃ dialer x l, st = .exchanging dialer x l ∧ now < x.deadline.ceilMilliseconds := by
  cases st with
  | exchanging dialer x l => exact ⟨dialer, x, l, rfl, of_decide_eq_true h⟩
  | _ => cases h

theorem Holds.same_put (h : k.Holds ids p) {side dialer : Side} {w : Swarm}
    (hkeeps : (p side).Keeps (k.number side dialer) w)
    (hduty : ((w.register? (k.session side)).bind fun r => r.duty (k.number side dialer.other))
      = ((p side).register? (k.session side)).bind fun r => r.duty (k.number side dialer.other))
    (side' dialer' : Side) : side' = side ∧ dialer' = dialer
      ∨ k.stage (put p side w) side' dialer' = k.stage p side' dialer' := by
  by_cases hside : side' = side
  · subst hside
    rcases Side.eq_or_other_eq dialer dialer' with rfl | rfl
    · exact Or.inl ⟨rfl, rfl⟩
    · rw [stage_put_same]
      exact Or.inr (Swarm.stage_congr hduty
        (hkeeps.attemptStage_eq (h.number_ne side' dialer)))
  · exact Or.inr (k.stage_put_other p dialer' w hside)

/-- What a side lists for the other is the other one of the two sockets, while it is not closed
out. -/
theorem taken_of_listed {side dialer : Side} {r : Register} {n : Nat}
    (hr : (p side).register? (k.session side) = some r)
    (hlists : r.Lists (ids side.other) fun n => ∃ dialer, n = k.number side dialer)
    (hfresh : r.duty (k.number side dialer) = none)
    (hlisted : r.peers.get? (ids side.other) = some n) :
    (k.stage p side dialer.other).verdict? = some .taken := by
  obtain ⟨⟨dialer', rfl⟩, d, hduty, _⟩ := hlists.listed n hlisted
  rcases Side.eq_or_other_eq dialer dialer' with rfl | rfl
  · cases hfresh.symm.trans hduty
  · rw [stage, Swarm.stage_of_duty hr hduty]
    rfl

/-- When nothing is listed for the other side, a socket that was taken has come to its end. -/
theorem Holds.refused_of_unlisted (h : k.Holds ids p) {side dialer : Side} {r : Register}
    (hr : (p side).register? (k.session side) = some r)
    (hlists : r.Lists (ids side.other) fun n => ∃ dialer, n = k.number side dialer)
    (hnone : r.peers.get? (ids side.other) = none)
    (htaken : (k.stage p side dialer).verdict? = some .taken) :
    (k.stage p side.other dialer).verdict? = some .refused := by
  cases hst : k.stage p side dialer with
  | taken d =>
      obtain ⟨r', hr', hduty⟩ := Swarm.duty_of_stage hst
      cases hr.symm.trans hr'
      cases hout : d.closedOut with
      | true => exact h.agree.ended side dialer d hst (hlists.hasEnded _ d ⟨dialer, rfl⟩ hduty hout)
      | false => cases (hlists.lists _ d ⟨dialer, rfl⟩ hduty hout).symm.trans hnone
  | absent | dialing | exchanging | refused =>
      rw [hst] at htaken
      cases htaken

theorem Holds.goesOn (h : k.Holds ids p) {side dialer : Side} {w : Swarm} {number : Option Nat}
    {x x' : Exchange} {l l' : Link} (hst : k.stage p side dialer = .exchanging number x l)
    (hkeeps : (p side).Keeps (k.number side dialer) w)
    (hregister : ∀ n, w.register? n = (p side).register? n)
    (hstage : w.attemptStage (k.number side dialer) = .exchanging number x' l')
    (hfits : k.Fits ids (k.stage p) side dialer (.exchanging number x' l')) :
    k.Holds ids (put p side w) := by
  have hhome := h.home side
  obtain ⟨r, hr, _⟩ := hhome.register_eq
  obtain ⟨_, hfresh⟩ := Swarm.attemptStage_of_stage hst fun _ => nofun
  have hsame := h.same_put hkeeps (by rw [hregister])
  have hnew : k.stage (put p side w) side dialer = .exchanging number x' l' := by
    rw [stage_put_same, Swarm.stage_of_fresh ((hregister _).trans hr) (hfresh r hr), hstage]
  refine ⟨h.ids_ne, h.number_ne, h.home_put (hhome.congr hkeeps.peerId_eq
    (by rw [hkeeps.torrents_eq]) (hregister _)), h.agree.goesOn (hfits _ hsame hnew) ?_ ?_⟩
  · intro side' dialer'
    rcases hsame side' dialer' with ⟨rfl, rfl⟩ | heq
    · rw [hnew, hst]
      rfl
    · rw [heq]
  · intro side' dialer' d hd hended
    rcases hsame side' dialer' with ⟨rfl, rfl⟩ | heq
    · cases hnew.symm.trans hd
    · exact Or.inl ⟨d, heq.symm.trans hd, hended⟩

theorem Holds.refuses (h : k.Holds ids p) {side dialer : Side} {w : Swarm} {number : Option Nat}
    {x : Exchange} {l l' : Link} {r : Register}
    (hst : k.stage p side dialer = .exchanging number x l)
    (hr : (p side).register? (k.session side) = some r)
    (hlisted : r.peers.get? (ids side.other) ≠ none)
    (hkeeps : (p side).Keeps (k.number side dialer) w)
    (hregister : w.register? (k.session side) = some r)
    (hstage : w.attemptStage (k.number side dialer) = .refused l')
    (hfits : k.Fits ids (k.stage p) side dialer (.refused l'))
    (horder : side = dialer → (k.stage p dialer.other dialer).verdict? ≠ none) :
    k.Holds ids (put p side w) := by
  have hhome := h.home side
  obtain ⟨r', hr', _, _, _, hlists⟩ := hhome.register_eq
  cases hr.symm.trans hr'
  obtain ⟨_, hfresh⟩ := Swarm.attemptStage_of_stage hst fun _ => nofun
  have hsame := h.same_put hkeeps (by rw [hregister, hr])
  have hnew : k.stage (put p side w) side dialer = .refused l' := by
    rw [stage_put_same, Swarm.stage_of_fresh hregister (hfresh r hr), hstage]
  refine ⟨h.ids_ne, h.number_ne, h.home_put (hhome.congr hkeeps.peerId_eq
    (by rw [hkeeps.torrents_eq]) (hregister.trans hr.symm)),
    h.agree.decides ?_ (hfits _ hsame hnew) hsame horder (Or.inl ⟨?_, ?_⟩)⟩
  · rw [hst]
    rfl
  · rw [hnew]
    rfl
  · obtain ⟨n, hn⟩ := Option.ne_none_iff_exists'.mp hlisted
    exact taken_of_listed hr hlists (hfresh r hr) hn

theorem Holds.takes (h : k.Holds ids p) {side dialer : Side} {w : Swarm} {number : Option Nat}
    {x : Exchange} {l : Link} {r : Register} {d : Duty}
    (hst : k.stage p side dialer = .exchanging number x l)
    (hr : (p side).register? (k.session side) = some r)
    (hnone : r.peers.get? (ids side.other) = none) (hpeer : d.fate.peerId = ids side.other)
    (hlive : d.hasEnded = false) (hopen : d.closedOut = false)
    (hkeeps : (p side).Keeps (k.number side dialer) w)
    (hregister : w.register? (k.session side) = some (r.enter (k.number side dialer) d))
    (hfits : k.Fits ids (k.stage p) side dialer (.taken d))
    (horder : side = dialer → (k.stage p dialer.other dialer).verdict? ≠ none) :
    k.Holds ids (put p side w) := by
  have hhome := h.home side
  obtain ⟨r', hr', hinfo, hown, hpaused, hlists⟩ := hhome.register_eq
  cases hr.symm.trans hr'
  have hduty : ∀ n, (r.enter (k.number side dialer) d).duty n
      = if n = k.number side dialer then some d else r.duty n := fun n => r.duty_enter _ n d
  have hsame := h.same_put hkeeps (by
    rw [hregister, hr, Option.bind_some, Option.bind_some, hduty,
      if_neg (h.number_ne side dialer)])
  have hnew : k.stage (put p side w) side dialer = .taken d := by
    rw [stage_put_same, Swarm.stage_of_duty hregister ((hduty _).trans (if_pos rfl))]
  have hhome' : k.Home ids side w := by
    refine ⟨hkeeps.peerId_eq.trans hhome.peerId_eq, ?_, _, hregister, hinfo, hown, hpaused,
      hlists.enter ⟨dialer, rfl⟩ hnone hpeer hopen⟩
    rw [hkeeps.torrents_eq, hhome.serves]
  refine ⟨h.ids_ne, h.number_ne, h.home_put hhome',
    h.agree.decides ?_ (hfits _ hsame hnew) hsame horder
      (Or.inr ⟨d, hnew, hlive, h.refused_of_unlisted hr hlists hnone⟩)⟩
  rw [hst]
  rfl

theorem Holds.exchange (h : k.Holds ids p) {side dialer : Side} {now : Nanoseconds}
    (hmove : k.exchange? p side dialer now = some p') : k.Holds ids p' := by
  unfold exchange? at hmove
  split at hmove
  case isFalse => cases hmove
  next hinTime =>
  obtain ⟨w, hw, rfl⟩ := Option.map_eq_some_iff.mp hmove
  obtain ⟨number, x, l, hst, htime⟩ := exchanging_of_inTime hinTime
  obtain ⟨hattempt, _⟩ := Swarm.attemptStage_of_stage hst fun _ => nofun
  obtain ⟨x', l', _, hstep, _⟩ := Swarm.exchange?_eq hattempt hw
  have hhome := h.home side
  obtain ⟨r, hr, _, hown, _⟩ := hhome.register_eq
  obtain ⟨hnumber, hnext⟩ := h.agree.step hst hhome.isServed htime hstep
  rcases hnext with ⟨hresult, hfits⟩ | ⟨hresult, htaken, hrefused, horder⟩
  · obtain ⟨hkeeps, hregister, hstage⟩ := Swarm.exchange?_undecided hattempt hstep hresult hw
    exact h.goesOn hst hkeeps hregister hstage hfits
  · obtain ⟨hkeeps, hdecided⟩ :=
      Swarm.exchange?_decided hattempt hstep hresult (hhome.takes hnumber _) hr hw
    rcases hdecided with ⟨hwhy, hregister, hstage⟩ | ⟨hnone, hregister⟩
    · refine h.refuses hst hr ?_ hkeeps hregister hstage hrefused horder
      exact hwhy.resolve_left fun hself => h.ids_ne side (hself.trans hown)
    · exact h.takes hst hr hnone rfl rfl rfl hkeeps hregister (htaken _ rfl) horder

/-! ### New sockets and the network -/

theorem Holds.opened (h : k.Holds ids p) {dialer : Side} {now : Nanoseconds} {capacity : Nat}
    {address : Address} (hmove : k.opened? p dialer now capacity address = some p') :
    k.Holds ids p' := by
  unfold opened? at hmove
  split at hmove
  case isFalse => cases hmove
  next hguard =>
  rw [Bool.and_eq_true, decide_eq_true_eq] at hguard
  obtain ⟨hdialing, hnumber⟩ := hguard
  obtain ⟨w, hw, hmove⟩ := Option.bind_eq_some_iff.mp hmove
  obtain ⟨w', hw', rfl⟩ := Option.map_eq_some_iff.mp hmove
  obtain ⟨hst, hst'⟩ := (h.agree.talk dialer).eq_of_isDialing hdialing
  obtain ⟨hattempt, hfresh⟩ := Swarm.attemptStage_of_stage hst fun _ => nofun
  obtain ⟨_, hfresh'⟩ := Swarm.attemptStage_of_stage hst' fun _ => nofun
  obtain ⟨r, hr, hinfo, _⟩ := (h.home dialer).register_eq
  obtain ⟨r', hr', _⟩ := (h.home dialer.other).register_eq
  obtain ⟨hkeeps, hregister, hstage⟩ := Swarm.answerDial?_spec hattempt hr hw
  obtain ⟨hkeeps', hregister', hstage'⟩ := Swarm.accept_spec hw'
  rw [hnumber] at hkeeps' hstage'
  -- The first swarm, then the second one.
  have hput : put (put p dialer w) dialer.other w' dialer = w := by
    rw [put_other _ _ (Side.ne_other dialer), put_same]
  have hput' : put (put p dialer w) dialer.other w' dialer.other = w' := put_same _ _ _
  have hown : k.stage (put (put p dialer w) dialer.other w') dialer dialer
      = .exchanging (some (k.session dialer)) (.outbound k.infoHash (ids dialer)
          (p dialer).options.handshakeTimeout (p dialer).options.connection.maxMessage now)
        (.make capacity) := by
    rw [stage, hput, Swarm.stage_of_fresh ((hregister _).trans hr) (hfresh r hr), hstage, hinfo,
      (h.home dialer).peerId_eq]
  have hother : k.stage (put (put p dialer w) dialer.other w') dialer.other dialer
      = .exchanging none (.inbound (ids dialer.other) (p dialer.other).options.handshakeTimeout
          (p dialer.other).options.connection.maxMessage now) (.make capacity) := by
    rw [stage, hput', Swarm.stage_of_fresh ((hregister' _).trans hr') (hfresh' r' hr'), hstage',
      (h.home dialer.other).peerId_eq]
  have hsame : ∀ side, k.stage (put (put p dialer w) dialer.other w') side dialer.other
      = k.stage p side dialer.other := by
    intro side
    rcases Side.eq_or_other_eq dialer side with rfl | rfl
    · rw [stage, hput]
      exact Swarm.stage_congr (by rw [hregister]) (hkeeps.attemptStage_eq (h.number_ne _ _))
    · rw [stage, hput']
      exact Swarm.stage_congr (by rw [hregister']) (hkeeps'.attemptStage_eq (h.number_ne _ _))
  have hnew : ∀ side, (k.stage (put (put p dialer w) dialer.other w') side dialer).verdict? = none
      ∧ (k.stage p side dialer).verdict? = none := by
    intro side
    rcases Side.eq_or_other_eq dialer side with rfl | rfl
    · rw [hown, hst]
      exact ⟨rfl, rfl⟩
    · rw [hother, hst']
      exact ⟨rfl, rfl⟩
  refine ⟨h.ids_ne, h.number_ne, fun side => ?_, h.agree.goesOn (fun dialer' => ?_)
    (fun side dialer' => ?_) fun side dialer' d hd hended => ?_⟩
  · rcases Side.eq_or_other_eq dialer side with rfl | rfl
    · rw [hput]
      exact (h.home dialer).congr hkeeps.peerId_eq (by rw [hkeeps.torrents_eq]) (hregister _)
    · rw [hput']
      exact (h.home dialer.other).congr hkeeps'.peerId_eq (by rw [hkeeps'.torrents_eq])
        (hregister' _)
  · rcases Side.eq_or_other_eq dialer dialer' with rfl | rfl
    · rw [hown, hother]
      exact .opened ..
    · rw [hsame, hsame]
      exact h.agree.talk dialer.other
  · rcases Side.eq_or_other_eq dialer dialer' with rfl | rfl
    · rw [(hnew side).1, (hnew side).2]
    · rw [hsame]
  · rcases Side.eq_or_other_eq dialer dialer' with rfl | rfl
    · have hnone := (hnew side).1
      rw [hd] at hnone
      cases hnone
    · exact Or.inl ⟨d, (hsame side).symm.trans hd, hended⟩

theorem Home.modifyLink {side : Side} {w : Swarm} (h : k.Home ids side w) (number : Nat)
    (f : Link → Link) : k.Home ids side (w.modifyLink number f) := by
  obtain ⟨r, hr, hinfo, hown, hpaused, hlists⟩ := h.register_eq
  refine ⟨h.peerId_eq, h.serves, r.modify number fun d => { d with link := f d.link }, ?_, hinfo,
    hown, hpaused, ?_⟩
  · rw [Swarm.register?_modifyLink, hr, Option.map_some]
  · exact hlists.modify number (fun _ => rfl) (fun _ => rfl) fun _ hended => hended

theorem Holds.network (h : k.Holds ids p) {side dialer : Side} {passage : Passage}
    (hmove : k.network? p side dialer passage = some p') : k.Holds ids p' := by
  obtain ⟨near, hnear, hmove⟩ := Option.bind_eq_some_iff.mp hmove
  obtain ⟨far, hfar, hmove⟩ := Option.bind_eq_some_iff.mp hmove
  obtain ⟨⟨near', far'⟩, hpass, hp'⟩ := Option.map_eq_some_iff.mp hmove
  have hpasses := Link.passes_of_pass? hpass
  simp only at hp'
  have hsame : ∀ side', k.stage p' side' dialer.other = k.stage p side' dialer.other := by
    intro side'
    rw [← hp', stage, Swarm.stage_modifyLink, if_neg (h.number_ne side' dialer), stage]
  have hchanged : ∀ side', k.stage p' side' dialer
      = (k.stage p side' dialer).mapLink fun _ => if side' = side then near' else far' := by
    intro side'
    rw [← hp', stage, Swarm.stage_modifyLink, if_pos rfl, stage]
  have htalk : Talk k.infoHash (ids dialer) (ids dialer.other) (k.session dialer)
      (k.stage p' dialer dialer) (k.stage p' dialer.other dialer) := by
    rw [hchanged, hchanged]
    rcases Side.eq_or_other_eq dialer side with rfl | rfl
    · simp only [if_pos, if_neg (Side.other_ne dialer)]
      exact (h.agree.talk dialer).pass_forward hnear hfar hpasses
    · rw [Side.other_other] at hfar
      simp only [if_pos, if_neg (Side.ne_other dialer)]
      exact (h.agree.talk dialer).pass_backward hfar hnear hpasses
  refine ⟨h.ids_ne, h.number_ne, fun side' => ?_, h.agree.goesOn (fun dialer' => ?_)
    (fun side' dialer' => ?_) fun side' dialer' d hd hended => ?_⟩
  · rw [← hp']
    exact (h.home side').modifyLink _ _
  · rcases Side.eq_or_other_eq dialer dialer' with rfl | rfl
    · exact htalk
    · rw [hsame, hsame]
      exact h.agree.talk dialer.other
  · rcases Side.eq_or_other_eq dialer dialer' with rfl | rfl
    · rw [hchanged, Talk.verdict?_mapLink]
    · rw [hsame]
  · rcases Side.eq_or_other_eq dialer dialer' with rfl | rfl
    · rw [hchanged] at hd
      cases hst : k.stage p side' dialer with
      | taken d' =>
          rw [hst] at hd
          cases hd
          exact Or.inl ⟨d', rfl, hended⟩
      | absent | dialing | exchanging | refused =>
          rw [hst] at hd
          cases hd
    · exact Or.inl ⟨d, (hsame side').symm.trans hd, hended⟩

/-! ### The sessions -/

theorem allows_spec {side : Side} {event : Session.Event} (h : k.allows p side event = true) :
    event ≠ .pause ∧ event ≠ .dropAllPeers ∧ event ≠ .shutdown
      ∧ (∀ dialer link, event ≠ .farEnd (k.number side dialer) link)
      ∧ ∀ number link address hs buffer, event = .connect number link address hs buffer →
        (¬ ∃ dialer, number = k.number side dialer) ∧ hs.peerId ≠ (p side.other).peerId := by
  have hnumbers : ∀ number, (number ≠ k.number side .left && number ≠ k.number side .right : Bool)
      = true → ¬ ∃ dialer, number = k.number side dialer := by
    rintro number hne ⟨dialer, rfl⟩
    cases dialer <;> simp at hne
  cases event with
  | pause | dropAllPeers | shutdown => cases h
  | connect number link address hs buffer =>
      refine ⟨nofun, nofun, nofun, nofun, fun number' link' address' hs' buffer' heq => ?_⟩
      cases heq
      rw [allows, Bool.and_eq_true, decide_eq_true_eq] at h
      exact ⟨hnumbers number h.1, h.2⟩
  | farEnd number link =>
      refine ⟨nofun, nofun, nofun, fun dialer link' heq => ?_, nofun⟩
      cases heq
      exact hnumbers _ h ⟨dialer, rfl⟩
  | own | disconnect | send | resume | removeFinishedPeers | addAddress | startConnecting
    | doneConnecting => exact ⟨nofun, nofun, nofun, nofun, nofun⟩

/-- A connection that has come to its end did so because the other side had refused it. -/
theorem Agree.refused_of_ended {st : Side → Side → Stage} (h : k.Agree ids st) {side dialer : Side}
    {d d' : Duty} (hst : st side dialer = .taken d) (hended : d'.hasEnded = true)
    (hgoes : (!(st side dialer).isLive || (Stage.taken d').isLive
      || (st side.other dialer).isClosed) = true) :
    (st side.other dialer).verdict? = some .refused := by
  by_cases hd : d.hasEnded = true
  · exact h.ended side dialer d hst hd
  · rw [Bool.not_eq_true] at hd
    rw [hst] at hgoes
    simp only [Stage.isLive, hd, hended, Bool.not_false, Bool.not_true, Bool.false_or] at hgoes
    cases hother : st side.other dialer with
    | refused => rfl
    | taken d'' =>
        rw [hother] at hgoes
        have hback := h.ended side.other dialer d'' hother hgoes
        rw [Side.other_other, hst] at hback
        cases hback
    | absent | dialing | exchanging =>
        rw [hother] at hgoes
        cases hgoes

theorem stage_of_shift {w w' : Swarm} {s : Session} {r : Register} {session n : Nat}
    {now : Nanoseconds} {event : Session.Event} (hs : w.register? session = some s.register)
    (hr : w'.register? session = some r) (hattempts : w'.attemptStage n = w.attemptStage n)
    (hshift : Session.Shift now s event r)
    (hconnect : ∀ link address hs buffer, event ≠ .connect n link address hs buffer) :
    w'.stage session n = w.stage session n
      ∨ ∃ d d', w.stage session n = .taken d ∧ w'.stage session n = .taken d'
        ∧ Session.Change now s event n d d' := by
  cases hduty : s.register.duty n with
  | none =>
      have hfresh : r.duty n = none := by
        rcases Session.fresh_of_shift hshift hduty with hnone | ⟨_, _, _, _, hevent, _⟩
        · exact hnone
        · exact absurd hevent (hconnect _ _ _ _)
      refine Or.inl (Swarm.stage_congr ?_ hattempts)
      rw [hr, hs, Option.bind_some, Option.bind_some, hfresh, hduty]
  | some d =>
      obtain ⟨d', hduty', hchange⟩ := Session.change_of_shift hshift hduty
      exact Or.inr ⟨d, d', Swarm.stage_of_duty hs hduty, Swarm.stage_of_duty hr hduty', hchange⟩

/-- The connections of a side go on, or have come to an end that the other side knows of. -/
theorem Holds.connections (h : k.Holds ids p) {side : Side} {w : Swarm} (now : Nanoseconds)
    (s : Session) (event : Session.Event) (hhome : k.Home ids side w)
    (hfar : ∀ dialer link, event ≠ .farEnd (k.number side dialer) link)
    (hends : ∀ dialer, k.stage (put p side w) side dialer = k.stage p side dialer
      ∨ ∃ d d', k.stage p side dialer = .taken d ∧ k.stage (put p side w) side dialer = .taken d'
        ∧ Session.Change now s event (k.number side dialer) d d')
    (hgoes : ∀ dialer, k.goesOn p (put p side w) side dialer = true) :
    k.Holds ids (put p side w) := by
  have hrefused : ∀ dialer d d', k.stage p side dialer = .taken d →
      k.stage (put p side w) side dialer = .taken d' → d'.hasEnded = true →
      (k.stage p side.other dialer).verdict? = some .refused := by
    intro dialer d d' hst hst' hended
    refine h.agree.refused_of_ended hst hended ?_
    rw [← hst']
    exact hgoes dialer
  have hother : ∀ dialer, k.stage (put p side w) side.other dialer = k.stage p side.other dialer :=
    fun dialer => k.stage_put_other p dialer w (Side.other_ne side)
  refine ⟨h.ids_ne, h.number_ne, h.home_put hhome, h.agree.goesOn (fun dialer => ?_)
    (fun side' dialer => ?_) fun side' dialer d hd hended => ?_⟩
  · -- The socket that this side dialed, and the one that it accepted.
    rcases Side.eq_or_other_eq side dialer with rfl | rfl
    · rw [hother]
      have htalk := h.agree.talk side
      rcases hends side with hsame | ⟨d, d', hst, hst', _⟩
      · rw [hsame]
        exact htalk
      · rw [hst] at htalk
        rw [hst']
        exact htalk.dialer_goesOn d'
    · have htalk := h.agree.talk side.other
      rw [Side.other_other] at htalk ⊢
      rw [hother]
      rcases hends side.other with hsame | ⟨d, d', hst, hst', hchange⟩
      · rw [hsame]
        exact htalk
      · rw [hst] at htalk
        rw [hst']
        refine htalk.acceptor_goesOn fun hopen => ?_
        -- It cannot have ended before the side that dialed has decided.
        rcases hchange.onward_or_ended (hfar side.other) with honward | hended
        · exact honward
        · rw [hrefused side.other d d' hst hst' hended] at hopen
          cases hopen
  · rcases Side.eq_or_other_eq side side' with rfl | rfl
    · rcases hends dialer with hsame | ⟨d, d', hst, hst', _⟩
      · rw [hsame]
      · rw [hst, hst']
        rfl
    · rw [hother]
  · rcases Side.eq_or_other_eq side side' with rfl | rfl
    · rcases hends dialer with hsame | ⟨d₀, d', hst, hst', _⟩
      · exact Or.inl ⟨d, hsame.symm.trans hd, hended⟩
      · exact Or.inr (hrefused dialer d₀ d hst hd hended)
    · exact Or.inl ⟨d, (hother dialer).symm.trans hd, hended⟩

theorem Holds.session (h : k.Holds ids p) {side : Side} {now : Nanoseconds} {event : Session.Event}
    (hmove : k.session? p side now event = some p') : k.Holds ids p' := by
  unfold session? at hmove
  split at hmove
  case isFalse => cases hmove
  next hallowed =>
  obtain ⟨s, hs, hmove⟩ := Option.bind_eq_some_iff.mp hmove
  obtain ⟨s', hhappen, hmove⟩ := Option.bind_eq_some_iff.mp hmove
  simp only at hmove
  split at hmove
  case isFalse => cases hmove
  next hgoes =>
  cases hmove
  rw [Bool.and_eq_true] at hgoes
  obtain ⟨hpause, hdrop, hshutdown, hfar, hconnect⟩ := allows_spec hallowed
  rw [(h.home side.other).peerId_eq] at hconnect
  have hshift := Session.shift_of_happen hhappen
  obtain ⟨hinfo', hown', hpaused'⟩ := Session.constant_of_shift hshift
  obtain ⟨r, hr, hinfo, hown, hpaused, hlists⟩ := (h.home side).register_eq
  have hregister : (p side).register? (k.session side) = some s.register :=
    congrArg (Option.map Session.register) hs
  cases hr.symm.trans hregister
  generalize hw : ({ p side with
    sessions := (p side).sessions.insert (k.session side) s' } : Swarm) = w at hgoes ⊢
  have hregister' : w.register? (k.session side) = some s'.register := by
    rw [← hw, Swarm.register?, Table.get?_insert_self, Option.map_some]
  refine h.connections now s event ?_ hfar (fun dialer => ?_) fun dialer => ?_
  · refine ⟨?_, ?_, s'.register, hregister', hinfo'.trans hinfo, hown'.trans hown,
      hpaused' hpause hpaused, Session.lists_of_shift hlists hshift hdrop hshutdown hconnect⟩
    · rw [← hw]
      exact (h.home side).peerId_eq
    · rw [← hw]
      exact (h.home side).serves
  · rw [stage_put_same, stage]
    refine stage_of_shift hregister hregister' (hw ▸ rfl) hshift fun _ _ _ _ hevent => ?_
    exact (hconnect _ _ _ _ _ hevent).1 ⟨dialer, rfl⟩
  · cases dialer with
    | left => exact hgoes.1
    | right => exact hgoes.2

/-! ### Runs -/

theorem Holds.elsewhere (h : k.Holds ids p) {side : Side} {w : Swarm}
    (hsame : k.Elsewhere side (p side) w) : k.Holds ids (put p side w) := by
  have hregister : w.register? (k.session side) = (p side).register? (k.session side) := by
    rw [Swarm.register?, hsame.session_eq, Swarm.register?]
  have hstage : k.stage (put p side w) = k.stage p := by
    funext side' dialer
    by_cases heq : side' = side
    · subst heq
      rw [stage_put_same]
      refine Swarm.stage_congr (by rw [hregister]) ?_
      rw [Swarm.attemptStage, hsame.attempt_eq, Swarm.attemptStage]
    · exact k.stage_put_other p dialer w heq
  refine ⟨h.ids_ne, h.number_ne, h.home_put ?_, hstage ▸ h.agree⟩
  exact (h.home side).congr hsame.peerId_eq hsame.listed_eq hregister

theorem Holds.move (h : k.Holds ids p) {m : Move} (hmove : k.move? p m = some p') :
    k.Holds ids p' := by
  cases m with
  | opened dialer now capacity address => exact h.opened hmove
  | exchange side dialer now => exact h.exchange hmove
  | network side dialer passage => exact h.network hmove
  | session side now event => exact h.session hmove

theorem Starts.holds (h : k.Starts p) : k.Holds (fun side => (p side).peerId) p := by
  have hids : ∀ side : Side, (p side.other).peerId ≠ (p side).peerId := by
    intro side
    cases side with
    | left => exact h.peerId_ne.symm
    | right => exact h.peerId_ne
  have hnumber : ∀ side, k.number side side ≠ k.number side side.other := by
    intro side heq
    have hdials := h.dials side
    rw [heq, h.waits side] at hdials
    cases hdials
  have hstage : ∀ side dialer, k.stage p side dialer
      = (p side).attemptStage (k.number side dialer) := by
    intro side dialer
    obtain ⟨r, hr, _, _, _, _, hfresh⟩ := h.session_eq side
    exact Swarm.stage_of_fresh hr (hfresh dialer)
  have hopen : ∀ side dialer, (k.stage p side dialer).verdict? = none := by
    intro side dialer
    rw [hstage]
    rcases Side.eq_or_other_eq side dialer with rfl | rfl
    · rw [h.dials side]
      rfl
    · rw [h.waits side]
      rfl
  refine ⟨hids, fun side dialer => ?_, fun side => ?_,
    ⟨fun dialer => ?_, ?_, fun side dialer d hd => ?_⟩⟩
  · rcases Side.eq_or_other_eq side dialer with rfl | rfl
    · exact (hnumber side).symm
    · rw [Side.other_other]
      exact hnumber side
  · obtain ⟨r, hr, hinfo, hown, hpaused, hnone, hfresh⟩ := h.session_eq side
    refine ⟨rfl, h.serves side, r, hr, hinfo, hown, hpaused, ?_, ?_, fun n hn => ?_, ?_⟩
    · rintro _ d ⟨dialer, rfl⟩ hduty
      cases (hfresh dialer).symm.trans hduty
    · rintro _ d ⟨dialer, rfl⟩ hduty
      cases (hfresh dialer).symm.trans hduty
    · cases hnone.symm.trans hn
    · rintro _ d ⟨dialer, rfl⟩ hduty
      cases (hfresh dialer).symm.trans hduty
  · have hwaits := h.waits dialer.other
    rw [Side.other_other] at hwaits
    rw [hstage, hstage, h.dials dialer, hwaits]
    exact .unopened
  · refine ⟨fun dialer hd => ?_, fun dialer hd => ?_, fun dialer hd => ?_, fun side hd => ?_⟩
    · exact absurd (hopen dialer dialer) hd
    · cases (hopen dialer.other dialer).symm.trans hd
    · cases (hopen dialer dialer).symm.trans hd
    · cases (hopen side side).symm.trans hd
  · have hnone := hopen side dialer
    rw [hd] at hnone
    cases hnone

theorem Run.holds (hstart : k.Starts p) (hrun : k.Run p p') :
    k.Holds (fun side => (p side).peerId) p' := by
  induction hrun with
  | start => exact hstart.holds
  | moved _ hmove ih => exact ih.move hmove
  | elsewhere _ side hsame ih => exact ih.elsewhere hsame

end MutualDial

end TorrentCore
