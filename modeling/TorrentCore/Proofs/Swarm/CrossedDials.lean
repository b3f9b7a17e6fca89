import TorrentCore.Proofs.Swarm.Agreement

/-!
# What becomes of two swarms that dial each other

When both attempts are over one of the two sockets is a connection at work on both sides, unless
each side has refused the socket that it had dialed, because it had taken the other one first. Then
each socket is refused by one of them, and none is left.
-/

namespace TorrentCore

namespace MutualDial

variable {k : MutualDial} {ids : Side → Identifier} {p p' : Side → Swarm}

theorem live_of_taken {st : Stage} (h : st.verdict? = some .taken) :
    st.isLive = true ∨ ∃ d, st = .taken d ∧ d.hasEnded = true := by
  cases st with
  | taken d =>
      cases hd : d.hasEnded with
      | true => exact Or.inr ⟨d, rfl, hd⟩
      | false =>
          refine Or.inl ?_
          rw [Stage.isLive, hd]
          rfl
  | absent | dialing | exchanging | refused => cases h

theorem not_live_of_closed {st : Stage} (h : st.isClosed = true) : st.isLive = false := by
  cases st with
  | taken d =>
      rw [Stage.isLive, show d.hasEnded = true from h]
      rfl
  | absent | dialing | exchanging | refused => rfl

theorem Holds.listed_of_live (h : k.Holds ids p) {side dialer : Side}
    (hlive : (k.stage p side dialer).isLive = true) :
    k.listed p side = some (k.number side dialer) := by
  obtain ⟨r, hr, _, _, _, hlists⟩ := (h.home side).register_eq
  cases hst : k.stage p side dialer with
  | taken d =>
      obtain ⟨r', hr', hduty⟩ := Swarm.duty_of_stage hst
      cases hr.symm.trans hr'
      rw [hst, Stage.isLive, Bool.not_eq_true'] at hlive
      have hopen : d.closedOut = false := by
        rw [← Bool.not_eq_true]
        intro hout
        rw [hlists.hasEnded _ d ⟨dialer, rfl⟩ hduty hout] at hlive
        cases hlive
      rw [listed, hr, Option.bind_some, (h.home side.other).peerId_eq]
      exact hlists.lists _ d ⟨dialer, rfl⟩ hduty hopen
  | absent | dialing | exchanging | refused =>
      rw [hst] at hlive
      cases hlive

/-- Two swarms that dial each other end up with one connection, which both list. Only if each side
has refused the socket that it had dialed, having taken the other one, they have none. -/
theorem connected_unless_crossed (hstart : k.Starts p) (hrun : k.Run p p')
    (hsettled : k.Settled p') :
    (¬ k.Crossed p' → k.Connected p')
      ∧ (k.Crossed p' → (∀ side, (k.stage p' side side.other).verdict? = some .taken)
        ∧ ∀ side dialer, (k.stage p' side dialer).isLive = false) := by
  have h := hrun.holds hstart
  refine ⟨fun hnot => ?_, fun hcrossed => ⟨fun side => ?_, fun side dialer => ?_⟩⟩
  · obtain hcrossed | ⟨dialer, htaken, side₀, hrefused⟩ := h.agree.fair.outcome hsettled.decided
    · exact absurd hcrossed hnot
    refine ⟨dialer, fun side => ?_, fun side => ?_⟩
    · have hlive : (k.stage p' side dialer).isLive = true := by
        rcases live_of_taken (htaken side) with hlive | ⟨d, hd, hended⟩
        · exact hlive
        · cases (htaken side.other).symm.trans (h.agree.ended side dialer d hd hended)
      exact ⟨hlive, h.listed_of_live hlive⟩
    · exact not_live_of_closed (hsettled.closed dialer.other side₀ hrefused side)
  · exact h.agree.fair.dialer side (hcrossed side)
  · exact not_live_of_closed (hsettled.closed dialer dialer (hcrossed dialer) side)

/-! ### Two runs -/

def loopback : Address := ⟨.v4 [127, 0, 0, 1], 6881⟩

def dialing (byte : UInt8) : Swarm :=
  let w := Swarm.make ⟨List.replicate 20 byte, List.length_replicate⟩ {} 0
  match w.beginAdd { Session.twoPieces with initial := .nothing } with
  | .ok (number, w) => ((w.finishAdd number).2.dial 0 number loopback).getD w
  | .error _ => w

def bothDialing : Side → Swarm
  | .left => dialing 1
  | .right => dialing 2

/-- The first number is that of the session, then come the two sockets. -/
def bothDialed : MutualDial where
  infoHash := .zero
  session := fun _ => 0
  number := fun side dialer => if side = dialer then 1 else 2

theorem starts_bothDialing : bothDialed.Starts bothDialing := by
  refine ⟨by decide +kernel, fun side => ?_, fun side => ?_, fun side => ?_, fun side => ?_⟩
  · cases side <;> rfl
  · cases side with
    | left => exact ⟨_, rfl, rfl, rfl, rfl, rfl, fun dialer => by cases dialer <;> rfl⟩
    | right => exact ⟨_, rfl, rfl, rfl, rfl, rfl, fun dialer => by cases dialer <;> rfl⟩
  · cases side <;> rfl
  · cases side <;> rfl

/-- The network connects the socket of a side, and the handshake of the side comes over. -/
def asks (dialer : Side) : List Move :=
  [.opened dialer 0 4096 loopback, .exchange dialer dialer 0, .network dialer dialer (.carry 68)]

/-- The other side reads it, writes its answer and decides. Then the answer comes over. -/
def answers (dialer : Side) : List Move :=
  [.exchange dialer.other dialer 0, .exchange dialer.other dialer 0,
    .network dialer.other dialer (.carry 68)]

/-- The side that has refused its own socket lets go of it, and the other one reads that. -/
def letsGo (dialer : Side) : List Move :=
  [.network dialer dialer .endOfStream, .session dialer.other 0 (.own (.receive 2)),
    .session dialer.other 0 (.own (.receive 2))]

theorem exists_run_of_run? (moves : List Move) (test : (Side → Swarm) → Bool)
    (h : (bothDialed.run? moves bothDialing).any test = true) :
    ∃ p, bothDialed.Run bothDialing p ∧ test p = true := by
  obtain ⟨p, hp, htest⟩ := (Option.any_eq_true _ _).mp h
  exact ⟨p, run_of_run? .start hp, htest⟩

/-- The left side is the first on both sockets. -/
theorem connected_unless_crossed_leftFirst : ∃ p, bothDialed.Starts bothDialing
    ∧ bothDialed.Run bothDialing p ∧ bothDialed.Settled p ∧ bothDialed.Connected p := by
  obtain ⟨p, hrun, htest⟩ := exists_run_of_run? (asks .left ++ asks .right ++ answers .left
      ++ [.exchange .left .left 0] ++ answers .right ++ [.exchange .right .right 0])
    (fun p => decide (bothDialed.Settled p ∧ ¬ bothDialed.Crossed p)) (by decide +kernel)
  obtain ⟨hsettled, hnot⟩ := of_decide_eq_true htest
  exact ⟨p, starts_bothDialing, hrun, hsettled,
    (connected_unless_crossed starts_bothDialing hrun hsettled).1 hnot⟩

/-- Each side answers the other one before it hears its own answer. -/
theorem alwaysConnected_fails : ¬ ∀ (k : MutualDial) (p p' : Side → Swarm), k.Starts p →
    k.Run p p' → k.Settled p' → k.Connected p' := by
  intro hall
  obtain ⟨p, hrun, htest⟩ := exists_run_of_run? (asks .left ++ asks .right ++ answers .left
      ++ answers .right ++ [.exchange .left .left 0, .exchange .right .right 0] ++ letsGo .left
      ++ letsGo .right)
    (fun p => decide (bothDialed.Settled p ∧ ¬ bothDialed.Connected p)) (by decide +kernel)
  obtain ⟨hsettled, hnot⟩ := of_decide_eq_true htest
  exact hnot (hall _ _ _ starts_bothDialing hrun hsettled)

end MutualDial

end TorrentCore
