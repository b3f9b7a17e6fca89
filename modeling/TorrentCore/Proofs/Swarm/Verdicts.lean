import TorrentCore.Proofs.Swarm.Dials

/-!
# Who decides what about two sockets

Each side takes the first socket of the other and refuses a second one as long as the first is
there. `Fair` is what this comes to when the two sides have dialed each other: it is kept whenever a
side decides, and once everything is decided it leaves just two outcomes.
-/

namespace TorrentCore

/-- What can be decided about the two sockets: `v side dialer` is the verdict of a side on the
socket that `dialer` has dialed. -/
structure Fair (v : Side → Side → Option Verdict) : Prop where
  /-- The side that dialed decides last. -/
  order : ∀ dialer, v dialer dialer ≠ none → v dialer.other dialer ≠ none
  /-- A socket is refused by the side that was dialed only if that side has its own one, on which
  both agree. -/
  acceptor : ∀ dialer, v dialer.other dialer = some .refused →
    v dialer.other dialer.other = some .taken ∧ v dialer dialer.other = some .taken
  dialer : ∀ dialer, v dialer dialer = some .refused → v dialer dialer.other = some .taken
  /-- A side takes both only if the other one has refused the first of them. -/
  both : ∀ side, v side side = some .taken → v side side.other = some .taken →
    v side.other side.other = some .refused

namespace Fair

variable {v v' : Side → Side → Option Verdict}

theorem dialer_decides (h : Fair v) {side : Side} (hopen : v side side = none)
    (hsame : ∀ side' dialer, side' = side ∧ dialer = side ∨ v' side' dialer = v side' dialer)
    (horder : v side.other side ≠ none)
    (hnew : (v' side side = some .refused ∧ v side side.other = some .taken)
      ∨ (v' side side = some .taken
        ∧ (v side side.other = some .taken → v side.other side.other = some .refused))) :
    Fair v' := by
  have hmine : v' side side.other = v side side.other :=
    (hsame side side.other).resolve_left fun heq => Side.other_ne side heq.2
  have htheirs : ∀ dialer, v' side.other dialer = v side.other dialer := fun dialer =>
    (hsame side.other dialer).resolve_left fun heq => Side.other_ne side heq.1
  -- Each of the four facts about the socket that is decided, and then about the other one.
  refine ⟨fun d hd => ?_, fun d hd => ?_, fun d hd => ?_, fun d hown hother => ?_⟩
  all_goals rcases Side.eq_or_other_eq side d with rfl | rfl
  all_goals simp only [Side.other_other, htheirs, hmine] at *
  · exact horder
  · have hback := h.order side.other hd
    rwa [Side.other_other] at hback
  · exact h.acceptor side hd
  · have hback := h.acceptor side.other
    simp only [Side.other_other] at hback
    rw [(hback hd).1] at hopen
    cases hopen
  · rcases hnew with ⟨_, htaken⟩ | ⟨htaken, _⟩
    · exact htaken
    · cases htaken.symm.trans hd
  · have hback := h.dialer side.other hd
    rwa [Side.other_other] at hback
  · rcases hnew with ⟨hrefused, _⟩ | ⟨_, hthen⟩
    · cases hrefused.symm.trans hown
    · exact hthen hother
  · have hback := h.both side.other hown
    simp only [Side.other_other] at hback
    rw [hback hother] at hopen
    cases hopen

theorem acceptor_decides (h : Fair v) {side : Side} (hopen : v side side.other = none)
    (hsame : ∀ side' dialer,
      side' = side ∧ dialer = side.other ∨ v' side' dialer = v side' dialer)
    (hnew : (v' side side.other = some .refused ∧ v side side = some .taken)
      ∨ (v' side side.other = some .taken
        ∧ (v side side = some .taken → v side.other side = some .refused))) :
    Fair v' := by
  have hown : v' side side = v side side :=
    (hsame side side).resolve_left fun heq => Side.ne_other side heq.2
  have htheirs : ∀ dialer, v' side.other dialer = v side.other dialer := fun dialer =>
    (hsame side.other dialer).resolve_left fun heq => Side.other_ne side heq.1
  -- The other side cannot have decided on the socket that it has dialed.
  have hwaits : v side.other side.other = none := by
    refine Decidable.byContradiction fun hdecided => ?_
    have hback := h.order side.other hdecided
    rw [Side.other_other] at hback
    exact hback hopen
  have hnotRefused : v side.other side ≠ some .refused := by
    intro hrefused
    rw [(h.acceptor side hrefused).1] at hwaits
    cases hwaits
  -- Each of the four facts about the socket of this side, and then about the other one.
  refine ⟨fun d hd => ?_, fun d hd => ?_, fun d hd => ?_, fun d htaken hother => ?_⟩
  all_goals rcases Side.eq_or_other_eq side d with rfl | rfl
  all_goals simp only [Side.other_other, htheirs, hown] at *
  · exact h.order side hd
  · exact absurd hwaits hd
  · exact absurd hd hnotRefused
  · rcases hnew with ⟨_, htaken⟩ | ⟨htaken, _⟩
    · refine ⟨htaken, ?_⟩
      have hdecided : v side.other side ≠ none := h.order side (by rw [htaken]; exact nofun)
      obtain ⟨verdict, hverdict⟩ := Option.ne_none_iff_exists'.mp hdecided
      cases verdict with
      | taken => exact hverdict
      | refused => exact absurd hverdict hnotRefused
    · cases htaken.symm.trans hd
  · rw [h.dialer side hd] at hopen
    cases hopen
  · rw [hwaits] at hd
    cases hd
  · rcases hnew with ⟨hrefused, _⟩ | ⟨_, hthen⟩
    · cases hrefused.symm.trans hother
    · exact absurd (hthen htaken) hnotRefused
  · rw [hwaits] at htaken
    cases htaken

/-- Once both attempts are over, either each side has refused its own socket, or there is one socket
that both have taken, and the other socket is refused by one of them. -/
theorem outcome (h : Fair v) (hover : ∀ dialer, v dialer dialer ≠ none) :
    (∀ dialer, v dialer dialer = some .refused)
      ∨ ∃ dialer, (∀ side, v side dialer = some .taken) ∧ ∃ side, v side dialer.other
        = some .refused := by
  by_cases hcrossed : ∀ dialer, v dialer dialer = some .refused
  · exact Or.inl hcrossed
  obtain ⟨d, hd⟩ := Classical.not_forall.mp hcrossed
  have hdecided : ∀ verdict : Option Verdict, verdict ≠ none →
      verdict = some .taken ∨ verdict = some .refused := by
    intro verdict hne
    obtain ⟨verdict, rfl⟩ := Option.ne_none_iff_exists'.mp hne
    cases verdict with
    | taken => exact Or.inl rfl
    | refused => exact Or.inr rfl
  have hboth : ∀ {e : Side}, v e e = some .taken → v e.other e = some .taken →
      ∀ side, v side e = some .taken := by
    intro e hown hother side
    rcases Side.eq_or_other_eq e side with rfl | rfl
    · exact hown
    · exact hother
  have htaken := (hdecided _ (hover d)).resolve_right hd
  rcases hdecided _ (h.order d (hover d)) with hother | hother
  · refine Or.inr ⟨d, hboth htaken hother, ?_⟩
    have horder := h.order d.other (hover d.other)
    rw [Side.other_other] at horder
    rcases hdecided _ horder with hsecond | hsecond
    · exact ⟨d.other, h.both d htaken hsecond⟩
    · exact ⟨d, hsecond⟩
  · obtain ⟨hown, hback⟩ := h.acceptor d hother
    refine Or.inr ⟨d.other, hboth hown (by rwa [Side.other_other]), d.other, ?_⟩
    rw [Side.other_other]
    exact hother

end Fair

end TorrentCore
