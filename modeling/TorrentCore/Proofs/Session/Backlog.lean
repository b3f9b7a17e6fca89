import TorrentCore.Proofs.Session.Queueing

/-!
# How many requests a session holds

The channel has a bounded number of places, and who finds none waits. But the uploader empties the
channel whenever it has a turn, and then serves one request, so what it has taken and not yet served
is bounded by nothing. How much it is, is told exactly by the docket. The backlog stays within the
size of the channel, and somewhat more, for an uploader that takes more only when little is left.
-/

namespace TorrentCore

namespace Docket

variable {d : Docket} {t : Ticket}

/-- Whatever was taken and is no withdrawal was popped or dropped, or is in the backlog. -/
def Balanced (d : Docket) : Prop := d.forgotten = [] →
  d.backlog.length + d.popped.length + d.dropped.length = (d.taken.filter Ticket.isRequest).length

theorem Balanced.take (h : d.Balanced) : d.take.Balanced := by
  cases hchannel : d.channel with
  | nil => rwa [take_of_nil hchannel]
  | cons t rest =>
  intro hforgotten
  rw [forgotten_take] at hforgotten
  have hbefore := h hforgotten
  have hpopped : d.take.popped = d.popped := by
    rw [take_of_cons hchannel]
    exact popped_took d.acts t
  have htaken : d.take.taken = d.taken ++ [t] := by
    rw [take_of_cons hchannel]
    exact taken_took d.acts t
  rw [hpopped, htaken, List.filter_append, List.length_append, ← hbefore, take_of_cons hchannel]
  simp only [List.length_append]
  cases hkind : t.entry.kind with
  | request =>
      obtain ⟨hfile, hstruck⟩ := file_of_request d.backlog hkind
      rw [hfile, hstruck, List.filter_cons_of_pos (Ticket.isRequest_iff.mpr hkind)]
      simp only [List.length_append, List.length_cons, List.length_nil, List.filter_nil]
      omega
  | cancel =>
      obtain ⟨hfile, hstruck⟩ := file_of_cancel d.backlog hkind
      have hparts := (List.filter_append_perm t.names d.backlog).length_eq
      rw [List.length_append] at hparts
      rw [hfile, hstruck, List.filter_cons_of_neg (Ticket.not_isRequest hkind), List.filter_nil,
        List.length_nil]
      omega

theorem Balanced.takeMany (h : d.Balanced) (count : Nat) : (takeMany count d).Balanced := by
  induction count generalizing d with
  | zero => exact h
  | succ count ih => exact ih h.take

theorem Balanced.pop (h : d.Balanced) : d.pop.Balanced := by
  cases hbacklog : d.backlog with
  | nil => rwa [Docket.pop, hbacklog]
  | cons t rest =>
  intro hforgotten
  rw [forgotten_pop] at hforgotten
  have hbefore := h hforgotten
  have htaken : d.pop.taken = d.taken := by
    rw [pop_of_cons hbacklog]
    exact taken_popped d.acts t
  have hpopped : d.pop.popped = d.popped ++ [t] := by
    rw [pop_of_cons hbacklog]
    exact popped_popped d.acts t
  rw [htaken, hpopped, ← hbefore, pop_of_cons hbacklog, hbacklog]
  simp only [List.length_append, List.length_cons, List.length_nil]
  omega

theorem Balanced.giveUp (h : d.Balanced) : d.giveUp.Balanced := by
  intro hforgotten
  obtain ⟨hwaiting, hforgotten⟩ := List.append_eq_nil_iff.mp hforgotten
  have hbacklog := (List.append_eq_nil_iff.mp hwaiting).1
  have hbefore := h hforgotten
  rw [hbacklog] at hbefore
  exact hbefore

theorem Balanced.pace (h : d.Balanced) (now : Nanoseconds) (s : Session) (p : Session.Pace) :
    (d.pace now s p).Balanced := by
  cases p with
  | take => exact h.take
  | pop => exact h.pop
  | event event =>
      rw [Docket.pace]
      unfold next
      split
      · exact (h.takeMany _).pop
      · exact h.giveUp
      · split
        · exact h
        · exact h
        · exact h

end Docket

namespace Session

open Docket

variable {d : Docket} {s s' start : Session} {now : Nanoseconds} {p : Pace} {places bound : Nat}

/-- How many requests are on their way to the uploader or with it. -/
def held (s : Session) : Nat := s.hub.uploads.items.length + s.backlog.length

/-- The channel has this many places, and its entries have places. -/
structure Roomy (places : Nat) (s : Session) : Prop where
  capacity_eq : s.hub.uploads.capacity = places
  length_le : s.hub.uploads.items.length ≤ places

def Pace.takes : Pace → Bool
  | .take | .event (.own .pickUpload) => true
  | .event _ | .pop => false

/-- The uploader takes entries only when no more than these are left in its backlog. -/
def keepsUp (bound : Nat) : List (Nanoseconds × Pace) → Session → Bool
  | [], _ => true
  | (now, p) :: rest, s => (!p.takes || decide (s.backlog.length ≤ bound))
    && (s.pace? now p).all (keepsUp bound rest)

theorem length_enqueue (backlog : List UploadRequest) (u : UploadRequest) :
    (enqueue backlog u).length ≤ backlog.length + 1 := by
  unfold enqueue
  split
  · exact Nat.le_of_eq List.length_append
  · exact Nat.le_succ_of_le (List.length_filter_le _ _)

theorem length_foldl_enqueue (items backlog : List UploadRequest) :
    (items.foldl enqueue backlog).length ≤ backlog.length + items.length := by
  induction items generalizing backlog with
  | nil => exact Nat.le_refl _
  | cons u items ih =>
      have hone := length_enqueue backlog u
      have hrest := ih (enqueue backlog u)
      rw [List.foldl_cons, List.length_cons]
      omega

/-- What a step does to the channel and to the backlog. The backlog grows only when the uploader
takes entries, and by no more than there are. -/
theorem lengths_pace (hkept : Kept d s) (hroomy : s.Roomy places)
    (hstep : s.pace? now p = some s') :
    s'.Roomy places ∧ s'.backlog.length
      ≤ s.backlog.length + if p.takes then s.hub.uploads.items.length else 0 := by
  obtain ⟨hcapacity, hlength⟩ := hroomy
  cases p with
  | take =>
      obtain ⟨_, u, rest, hitems, hdesk, _, _⟩ := yields_takeUpload hstep
      have huploads := congrArg Desk.uploads hdesk
      have hbacklog : s'.backlog = enqueue s.backlog u := congrArg Desk.backlog hdesk
      have hone := length_enqueue s.backlog u
      rw [hitems, List.length_cons] at hlength
      refine ⟨⟨?_, ?_⟩, ?_⟩
      · exact (congrArg Channel.capacity huploads).trans hcapacity
      · rw [show s'.hub.uploads.items = rest from congrArg Channel.items huploads]
        omega
      · rw [hbacklog, Pace.takes, if_pos rfl, hitems, List.length_cons]
        omega
  | pop =>
      obtain ⟨hdesk, _, _⟩ := yields_popUpload hstep
      have huploads : s'.hub.uploads = s.hub.uploads := congrArg Desk.uploads hdesk
      have hbacklog : s'.backlog = s.backlog.tail := congrArg Desk.backlog hdesk
      refine ⟨⟨huploads ▸ hcapacity, huploads ▸ hlength⟩, ?_⟩
      rw [hbacklog, List.length_tail]
      exact Nat.le_add_right_of_le (Nat.sub_le _ _)
  | event event =>
      obtain ⟨desk, herrand, hdesk, _, _⟩ := errand_of_happen hkept.clean hkept.spoken hstep
      have huploads : s'.hub.uploads = desk.uploads := congrArg Desk.uploads hdesk
      have hbacklog : s'.backlog = desk.backlog := congrArg Desk.backlog hdesk
      cases hturn : event.isTurn with
      | false =>
          obtain ⟨hitems, hsame⟩ := herrand.accept hturn
          rw [hitems] at huploads
          refine ⟨⟨?_, ?_⟩, ?_⟩
          · rw [huploads]
            exact hcapacity
          · rw [huploads, List.length_append]
            cases harrival : s.arrival? event with
            | none => exact hlength
            | some arrived =>
                obtain ⟨_, _, _, _, _, hoffer⟩ := arrival?_eq_some harrival
                have hplace := (Channel.offer_eq_accepted_iff.mp hoffer).2.1
                rw [hcapacity] at hplace
                exact hplace
          · rw [hbacklog, hsame]
            exact Nat.le_add_right _ _
      | true =>
          cases herrand with
          | turned =>
              have hwaiting := length_foldl_enqueue s.hub.uploads.items s.backlog
              refine ⟨⟨huploads ▸ hcapacity, huploads ▸ Nat.zero_le _⟩, ?_⟩
              rw [hbacklog, List.length_tail, Pace.takes, if_pos rfl]
              exact Nat.le_trans (Nat.sub_le _ _) hwaiting
          | shutdown =>
              refine ⟨⟨huploads ▸ hcapacity, huploads ▸ Nat.zero_le _⟩, ?_⟩
              rw [hbacklog]
              exact Nat.zero_le _
          | quiet _ hplain | spoke _ _ _ _ hplain =>
              rw [hplain.other] at hturn
              cases hturn
          | worked _ _ _ _ hother =>
              rw [hother] at hturn
              cases hturn
          | joined | sent | answered => cases hturn

theorem roomy_of_starts {ownId : Identifier} {t : TorrentSource}
    {connectionOptions : ConnectionOptions} {policy : ReservationPolicy}
    (h : Starts ownId t connectionOptions policy start) :
    start.Roomy (max t.options.uploadChannel 1) ∧ start.backlog = [] := by
  have hbare := bare_of_starts h
  refine ⟨⟨?_, ?_⟩, hbare.backlog_eq⟩
  · rw [hbare.uploads_eq]
    rfl
  · rw [hbare.uploads_eq]
    exact Nat.zero_le _

/-- Whoever takes more only when little is left never has more than that and a full channel. -/
theorem backlog_of_keepsUp {steps : List (Nanoseconds × Pace)} (hkept : Kept d start)
    (hroomy : start.Roomy places) (hless : start.backlog.length ≤ places + bound)
    (hkeeps : keepsUp bound steps start = true) (hrun : paces? steps start = some s) :
    s.backlog.length ≤ places + bound := by
  induction steps generalizing d start with
  | nil =>
      cases hrun
      exact hless
  | cons step steps ih =>
      obtain ⟨now, p⟩ := step
      obtain ⟨next, hnext, hrest⟩ := Option.bind_eq_some_iff.mp hrun
      rw [keepsUp, Bool.and_eq_true, hnext, Option.all_some] at hkeeps
      obtain ⟨htakes, hkeeps⟩ := hkeeps
      obtain ⟨hroomy', hgrows⟩ := lengths_pace hkept hroomy hnext
      have hitems := hroomy.length_le
      refine ih (hkept.pace hnext) hroomy' ?_ hkeeps hrest
      split at hgrows
      · next htaking =>
        rw [htaking, Bool.not_true, Bool.false_or, decide_eq_true_eq] at htakes
        omega
      · omega

/-- The channel holds no more than it has places for, and the backlog holds exactly the requests
that were taken and neither served nor dropped. How many these are depends on how the uploader keeps
up: if it took more only when at most `bound` were left, the session holds no more than twice the
places of the channel and `bound`. -/
theorem held_le_of_keepsUp {ownId : Identifier} {t : TorrentSource}
    {connectionOptions : ConnectionOptions} {policy : ReservationPolicy}
    {steps : List (Nanoseconds × Pace)}
    (hstart : Starts ownId t connectionOptions policy start) (hrun : paces? steps start = some s)
    (hdocket : Docket.empty.follow steps start = d) :
    s.hub.uploads.items.length ≤ max t.options.uploadChannel 1
      ∧ (d.forgotten = [] → s.backlog.length + d.popped.length + d.dropped.length
        = (d.taken.filter Ticket.isRequest).length)
      ∧ ∀ bound, keepsUp bound steps start = true →
        s.held ≤ 2 * max t.options.uploadChannel 1 + bound := by
  obtain ⟨hroomy, hempty⟩ := roomy_of_starts hstart
  have hkept := kept_of_starts hstart
  obtain ⟨⟨⟨_, _, _, htracks⟩, hroomy'⟩, hbalanced⟩ :
      (Kept d s ∧ s.Roomy (max t.options.uploadChannel 1)) ∧ d.Balanced := by
    refine hdocket ▸ paces_invariant
      (P := fun d s => (Kept d s ∧ s.Roomy (max t.options.uploadChannel 1)) ∧ d.Balanced)
      (fun {_ now s p _} h hstep => ⟨⟨h.1.1.pace hstep, (lengths_pace h.1.1 h.1.2 hstep).1⟩,
        h.2.pace now s p⟩) ⟨⟨hkept, hroomy⟩, fun _ => rfl⟩ hrun
  refine ⟨hroomy'.length_le, fun hforgotten => ?_, fun bound hkeeps => ?_⟩
  · rw [← htracks.backlog_eq, List.length_map]
    exact hbalanced hforgotten
  · have hitems := hroomy'.length_le
    have hless : start.backlog.length ≤ max t.options.uploadChannel 1 + bound :=
      hempty ▸ Nat.zero_le _
    have hbacklog := backlog_of_keepsUp hkept hroomy hless hkeeps hrun
    rw [held]
    omega

/-- Of the three requests that a peer sends one is dropped and two are served, and an uploader that
takes more when one is left keeps up. -/
theorem held_le_of_keepsUp_asksAgain : ∃ start s, Starts .zero twoPieces {} {} start
    ∧ paces? asksAgain start = some s ∧ keepsUp 1 asksAgain start = true
    ∧ s.held ≤ 2 * max twoPieces.options.uploadChannel 1 + 1
    ∧ (Docket.empty.follow asksAgain start).dropped.length = 1
    ∧ (Docket.empty.follow asksAgain start).popped.length = 2 := by
  have hdone : (start? .zero twoPieces {} {}).any (fun start =>
      (paces? asksAgain start).isSome && decide (keepsUp 1 asksAgain start = true
        ∧ (Docket.empty.follow asksAgain start).dropped.length = 1
        ∧ (Docket.empty.follow asksAgain start).popped.length = 2)) = true := by
    decide +kernel
  obtain ⟨start, hstart, htest⟩ := (Option.any_eq_true _ _).mp hdone
  obtain ⟨hruns, htest⟩ := Bool.and_eq_true_iff.mp htest
  obtain ⟨s, hrun⟩ := Option.isSome_iff_exists.mp hruns
  obtain ⟨hkeeps, hdropped, hpopped⟩ := of_decide_eq_true htest
  have hheld := (held_le_of_keepsUp (starts_of_start? hstart) hrun rfl).2.2 1 hkeeps
  exact ⟨start, s, starts_of_start? hstart, hrun, hkeeps, hheld, hdropped, hpopped⟩

def twoPlaces :
    TorrentSource := { twoPieces with options := { blockLength := 1, uploadChannel := 2 } }

/-- A peer sends requests, and as soon as the channel is full the uploader has a turn. -/
def floods : List (Nanoseconds × Event) :=
  let receive : Event := .own (.receive 0)
  let turn : List Event := [receive, receive, receive, receive, .own .pickUpload]
  let script : List Event := [joins 0 (List.replicate 12 (.request ⟨1, 0, 1⟩)), receive, receive]
    ++ (List.replicate 6 turn).flatten
  script.map fun event => (0, event)

/-- After six turns six requests are left with the uploader, one more than twice the places and the
one peer. -/
theorem heldBound_fails : ¬ ∀ (ownId : Identifier) (t : TorrentSource)
    (connectionOptions : ConnectionOptions) (policy : ReservationPolicy) (start s : Session)
    (events : List (Nanoseconds × Event)), Starts ownId t connectionOptions policy start →
    run? events start = some s →
    s.held ≤ 2 * max t.options.uploadChannel 1 + s.peers.size := by
  intro hbounded
  have hdone : (after? .zero twoPlaces {} {} floods).any (fun s =>
      decide (2 * max twoPlaces.options.uploadChannel 1 + s.peers.size < s.held)) = true := by
    decide +kernel
  obtain ⟨start, s, hstart, hrun, htest⟩ := exists_run_of_after? hdone
  have hmore := of_decide_eq_true htest
  exact absurd (hbounded _ _ _ _ start s floods hstart hrun) (Nat.not_le.mpr hmore)

end Session

end TorrentCore
