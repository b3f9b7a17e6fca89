import TorrentCore.Proofs.Session.Docket
import TorrentCore.Proofs.Session.Errand

/-!
# Requests are served in the order they came

A turn of the uploader takes all that is in the channel and pops one request. Here the two are steps
of their own, which may come in any order and between any events, so that requests may arrive at any
point of a turn. `Pace` has these steps besides the events, and a turn is one way to take them.

Beside such a run the docket is kept. It holds in its numbered tickets what the session holds, and
so what `Docket.InOrder` says of tickets is said of the requests that the session serves.
-/

namespace TorrentCore

namespace Session

inductive Pace where
  | event (event : Event)
  | take
  | pop

def takeUpload? (s : Session) : Option Session :=
  match s.upload, s.hub.uploads.take? with
  | .idle, some (u, uploads) =>
    some { s with hub := { s.hub with uploads := uploads }, backlog := enqueue s.backlog u }
  | _, _ => none

def popUpload? (s : Session) : Option Session :=
  match s.upload, s.backlog with
  | .idle, u :: rest => some (serve { s with backlog := rest } u)
  | _, _ => none

def pace? (now : Nanoseconds) (s : Session) : Pace → Option Session
  | .event event => s.happen? now event
  | .take => s.takeUpload?
  | .pop => s.popUpload?

def paces? : List (Nanoseconds × Pace) → Session → Option Session
  | [], s => some s
  | (now, pace) :: rest, s => (s.pace? now pace).bind (paces? rest)

theorem paces?_append (steps later : List (Nanoseconds × Pace)) (s : Session) :
    paces? (steps ++ later) s = (paces? steps s).bind (paces? later) := by
  induction steps generalizing s with
  | nil => rfl
  | cons step steps ih =>
      rw [List.cons_append, paces?, paces?, Option.bind_assoc]
      congr 1
      funext s'
      exact ih s'

end Session

namespace Docket

open Session

def next (d : Docket) (now : Nanoseconds) (s : Session) (event : Event) : Docket :=
  match event with
  | .own .pickUpload => d.takeAll.pop
  | .shutdown => d.giveUp
  | event => match s.arrival? event, s.answers? now event with
    | some (number, u), _ => d.arrive number u
    | none, some _ => d.answer
    | none, none => d

def pace (d : Docket) (now : Nanoseconds) (s : Session) : Pace → Docket
  | .event event => d.next now s event
  | .take => d.take
  | .pop => d.pop

def follow : List (Nanoseconds × Pace) → Session → Docket → Docket
  | [], _, d => d
  | (now, pace) :: rest, s, d => match s.pace? now pace with
    | some s' => follow rest s' (d.pace now s pace)
    | none => d

/-- What the session holds is on the docket. -/
structure Tracks (d : Docket) (s : Session) : Prop where
  channel_eq : d.channel.map Ticket.entry = s.hub.uploads.items
  backlog_eq : d.backlog.map Ticket.entry = s.backlog

variable {d : Docket} {s s' : Session} {now : Nanoseconds} {event : Event} {t : Ticket}

theorem next_of_other (hother : event.isTurn = false) : d.next now s event
    = match s.arrival? event, s.answers? now event with
      | some (number, u), _ => d.arrive number u
      | none, some _ => d.answer
      | none, none => d := by
  unfold next
  split
  · cases hother
  · cases hother
  · rfl

theorem map_file (tickets : List Ticket) (t : Ticket) :
    (file tickets t).map Ticket.entry = enqueue (tickets.map Ticket.entry) t.entry := by
  unfold file enqueue
  cases t.entry.kind with
  | request => exact List.map_append
  | cancel =>
      rw [List.filter_map]
      rfl

theorem takeMany_channel (d : Docket) {count : Nat} (hcount : d.channel.length = count) :
    (takeMany count d).channel = [] := by
  induction count generalizing d with
  | zero => exact List.length_eq_zero_iff.mp hcount
  | succ count ih =>
      refine ih d.take ?_
      cases hchannel : d.channel with
      | nil =>
          rw [hchannel] at hcount
          cases hcount
      | cons t rest =>
          rw [hchannel] at hcount
          rw [take_of_cons hchannel]
          exact Nat.succ.inj hcount

theorem takeMany_backlog (d : Docket) {count : Nat} (hcount : d.channel.length = count) :
    (takeMany count d).backlog.map Ticket.entry
      = (d.channel.map Ticket.entry).foldl enqueue (d.backlog.map Ticket.entry) := by
  induction count generalizing d with
  | zero =>
      rw [List.length_eq_zero_iff.mp hcount]
      rfl
  | succ count ih =>
      cases hchannel : d.channel with
      | nil =>
          rw [hchannel] at hcount
          cases hcount
      | cons t rest =>
          rw [hchannel] at hcount
          have htake := take_of_cons hchannel
          rw [takeMany, ih d.take (by rw [htake]; exact Nat.succ.inj hcount), htake,
            List.map_cons, List.foldl_cons, map_file]

theorem Tracks.waiting (h : d.Tracks s) : d.takeAll.backlog.map Ticket.entry = s.waiting := by
  rw [takeAll, takeMany_backlog d rfl, h.channel_eq, h.backlog_eq]
  rfl

theorem map_pop (d : Docket) :
    d.pop.backlog.map Ticket.entry = (d.backlog.map Ticket.entry).tail := by
  unfold pop
  cases hbacklog : d.backlog with
  | nil =>
      rw [hbacklog]
      rfl
  | cons t rest => rfl

theorem channel_pop (d : Docket) : d.pop.channel = d.channel := by
  unfold pop
  split <;> rfl

theorem Tracks.next (h : d.Tracks s) (herrand : s.Errand now event s'.desk) :
    (d.next now s event).Tracks s' := by
  cases hturn : event.isTurn with
  | false =>
      obtain ⟨huploads, hbacklog⟩ := herrand.accept hturn
      have hitems : s'.hub.uploads.items
          = s.hub.uploads.items ++ ((s.arrival? event).map Prod.snd).toList :=
        congrArg Channel.items huploads
      have hback : s'.backlog = s.backlog := hbacklog
      rw [next_of_other hturn]
      cases harrival : s.arrival? event with
      | some arrived =>
          rw [harrival] at hitems
          refine ⟨?_, h.backlog_eq.trans hback.symm⟩
          rw [hitems, ← h.channel_eq]
          exact List.map_append
      | none =>
          rw [harrival, Option.map_none, Option.toList_none, List.append_nil] at hitems
          have hsame : d.Tracks s' :=
            ⟨h.channel_eq.trans hitems.symm, h.backlog_eq.trans hback.symm⟩
          cases s.answers? now event with
          | some number => exact ⟨hsame.channel_eq, hsame.backlog_eq⟩
          | none => exact hsame
  | true =>
      generalize hdesk : s'.desk = desk at herrand
      have huploads : s'.hub.uploads = desk.uploads := congrArg Desk.uploads hdesk
      have hback : s'.backlog = desk.backlog := congrArg Desk.backlog hdesk
      cases herrand with
      | turned =>
          refine ⟨?_, ?_⟩
          · rw [huploads, Docket.next, channel_pop, takeAll, takeMany_channel d rfl]
            rfl
          · rw [hback, Docket.next, map_pop, h.waiting]
      | shutdown =>
          rw [Docket.next]
          refine ⟨?_, ?_⟩
          · rw [huploads]
            rfl
          · rw [hback]
            rfl
      | quiet _ hplain | spoke _ _ _ _ hplain =>
          rw [hplain.other] at hturn
          cases hturn
      | worked _ _ _ _ hother =>
          rw [hother] at hturn
          cases hturn
      | joined | sent | answered => cases hturn

theorem forgotten_take (d : Docket) : d.take.forgotten = d.forgotten := by
  unfold take
  split <;> rfl

theorem forgotten_takeMany (count : Nat) (d : Docket) :
    (takeMany count d).forgotten = d.forgotten := by
  induction count generalizing d with
  | zero => rfl
  | succ count ih => exact (ih d.take).trans d.forgotten_take

theorem forgotten_pop (d : Docket) : d.pop.forgotten = d.forgotten := by
  unfold pop
  split <;> rfl

theorem forgotten_pace (d : Docket) (now : Nanoseconds) (s : Session) {pace : Pace}
    (hopen : pace ≠ .event .shutdown) : (d.pace now s pace).forgotten = d.forgotten := by
  cases pace with
  | take => exact d.forgotten_take
  | pop => exact d.forgotten_pop
  | event event =>
      rw [Docket.pace]
      unfold next
      split
      · exact (forgotten_pop _).trans (forgotten_takeMany _ d)
      · exact absurd rfl hopen
      · split <;> rfl

theorem InOrder.next (h : d.InOrder) (now : Nanoseconds) (s : Session) (event : Event) :
    (d.next now s event).InOrder := by
  unfold Docket.next
  split
  · exact (h.takeMany _).pop
  · exact h.giveUp
  · split
    · exact h.arrive _ _
    · exact h.answer
    · exact h

end Docket

namespace Session

open Docket

variable {d : Docket} {s s' start : Session} {now : Nanoseconds}

theorem yields_takeUpload (h : s.takeUpload? = some s') : s.upload = .idle
    ∧ ∃ u rest, s.hub.uploads.items = u :: rest ∧ s.Yields
      { s.desk with uploads := { s.hub.uploads with items := rest }, backlog := enqueue s.backlog u }
      s' := by
  unfold takeUpload? at h
  split at h
  · next u uploads hidle htake =>
    cases h
    unfold Channel.take? at htake
    split at htake
    · cases htake
    next hitems =>
    cases htake
    exact ⟨hidle, _, _, hitems, rfl, id, fun _ hspoken => hspoken.congr rfl (List.Subset.refl _)⟩
  · cases h

theorem popUpload_eq (h : s.popUpload? = some s') : s.upload = .idle
    ∧ ∃ u rest, s.backlog = u :: rest ∧ s' = serve { s with backlog := rest } u := by
  unfold popUpload? at h
  split at h
  · next u rest hidle hbacklog =>
    cases h
    exact ⟨hidle, u, rest, hbacklog, rfl⟩
  · cases h

theorem yields_popUpload (h : s.popUpload? = some s') :
    s.Yields { s.desk with backlog := s.backlog.tail } s' := by
  obtain ⟨_, u, rest, hbacklog, rfl⟩ := popUpload_eq h
  have hpopped : s.Yields { s.desk with backlog := rest } { s with backlog := rest } :=
    ⟨rfl, id, fun _ hspoken => hspoken.congr rfl (List.Subset.refl _)⟩
  rw [hbacklog]
  exact hpopped.quiet (quiet_serve _ u)

theorem popUpload?_of_cons {u : UploadRequest} {rest : List UploadRequest}
    (hidle : s.upload = .idle) (hbacklog : s.backlog = u :: rest) :
    s.popUpload? = some (serve { s with backlog := rest } u) := by
  unfold popUpload?
  split
  · next hfirst =>
    rw [hbacklog] at hfirst
    cases hfirst
    rfl
  · next hnot => exact absurd hbacklog (hnot u rest hidle)

theorem paces?_take (now : Nanoseconds) (hidle : s.upload = .idle) :
    paces? (s.hub.uploads.items.map fun _ => (now, .take)) s = some (s.leaving s.waiting) := by
  generalize hitems : s.hub.uploads.items = items
  induction items generalizing s with
  | nil =>
      have hwaiting : s.waiting = s.backlog := by
        rw [waiting, hitems]
        rfl
      rw [List.map_nil, paces?, hwaiting, leaving, ← hitems]
  | cons u rest ih =>
      have htake : s.takeUpload? = some { s with
          hub := { s.hub with uploads := { s.hub.uploads with items := rest } }
          backlog := enqueue s.backlog u } := by
        rw [takeUpload?, hidle, Channel.take?, hitems]
      rw [List.map_cons, paces?, pace?, htake, Option.bind_some]
      refine Eq.trans (ih ?_ ?_) ?_
      · exact hidle
      · rfl
      · rw [waiting, waiting, hitems]
        rfl

/-- A turn of the uploader is one way to take its parts. -/
theorem paces?_turn (now : Nanoseconds) (h : s.pickUpload? = some s') :
    ∃ steps, (∀ step ∈ steps, step.2 = .take ∨ step.2 = .pop) ∧ paces? steps s = some s' := by
  obtain ⟨hidle, rfl⟩ := pickUpload_eq h
  have htakes := paces?_take now hidle
  cases hwaiting : s.waiting with
  | nil =>
      refine ⟨_, fun step hstep => ?_, hwaiting ▸ htakes⟩
      obtain ⟨_, _, rfl⟩ := List.mem_map.mp hstep
      exact Or.inl rfl
  | cons u rest =>
      have hpop : (s.leaving (u :: rest)).popUpload? = some ((s.leaving rest).serve u) :=
        popUpload?_of_cons hidle rfl
      refine ⟨(s.hub.uploads.items.map fun _ => (now, .take)) ++ [(now, .pop)],
        fun step hstep => ?_, ?_⟩
      · rcases List.mem_append.mp hstep with htook | hpopped
        · obtain ⟨_, _, rfl⟩ := List.mem_map.mp htook
          exact Or.inl rfl
        · exact Or.inr (List.mem_singleton.mp hpopped ▸ rfl)
      · rw [paces?_append, htakes, hwaiting, Option.bind_some, paces?, pace?, hpop]
        rfl

structure Kept (d : Docket) (s : Session) : Prop where
  clean : s.hub.packetPool.Clean
  spoken : s.Spoken
  inOrder : d.InOrder
  tracks : d.Tracks s

theorem Kept.next {event : Event} (h : Kept d s) (hstep : s.happen? now event = some s') :
    Kept (d.next now s event) s' := by
  obtain ⟨desk, herrand, hyields⟩ := errand_of_happen h.clean h.spoken hstep
  exact ⟨hyields.clean h.clean, hyields.spoken h.clean h.spoken, h.inOrder.next now s event,
    h.tracks.next (hyields.desk_eq.symm ▸ herrand)⟩

theorem Kept.pace {p : Pace} (h : Kept d s) (hstep : s.pace? now p = some s') :
    Kept (d.pace now s p) s' := by
  cases p with
  | event event => exact h.next hstep
  | take =>
      obtain ⟨_, u, rest, hitems, hdesk, hclean, hspoken⟩ := yields_takeUpload hstep
      refine ⟨hclean h.clean, hspoken h.clean h.spoken, h.inOrder.take, ?_⟩
      have hchannel := h.tracks.channel_eq
      rw [hitems] at hchannel
      obtain ⟨t, tickets, htickets, rfl, hrest⟩ := List.map_eq_cons_iff.mp hchannel
      rw [Docket.pace, take_of_cons htickets]
      refine ⟨?_, ?_⟩
      · rw [show s'.hub.uploads.items = rest from congrArg (fun k => k.uploads.items) hdesk]
        exact hrest
      · rw [show s'.backlog = enqueue s.backlog t.entry from congrArg Desk.backlog hdesk,
          ← h.tracks.backlog_eq]
        exact map_file _ _
  | pop =>
      obtain ⟨hdesk, hclean, hspoken⟩ := yields_popUpload hstep
      refine ⟨hclean h.clean, hspoken h.clean h.spoken, h.inOrder.pop, ?_⟩
      refine ⟨?_, ?_⟩
      · rw [show s'.hub.uploads = s.hub.uploads from congrArg Desk.uploads hdesk,
          ← h.tracks.channel_eq]
        exact congrArg _ (channel_pop d)
      · rw [show s'.backlog = s.backlog.tail from congrArg Desk.backlog hdesk,
          ← h.tracks.backlog_eq]
        exact map_pop d

/-- What holds at first and is kept by every step holds after them, for the docket beside them. -/
theorem paces_invariant {P : Docket → Session → Prop}
    (hstep : ∀ {d now s p s'}, P d s → pace? now s p = some s' → P (d.pace now s p) s')
    {steps : List (Nanoseconds × Pace)} (h : P d start) (hrun : paces? steps start = some s) :
    P (d.follow steps start) s := by
  induction steps generalizing d start with
  | nil =>
      cases hrun
      exact h
  | cons step steps ih =>
      obtain ⟨now, p⟩ := step
      obtain ⟨next, hnext, hrest⟩ := Option.bind_eq_some_iff.mp hrun
      rw [follow, hnext]
      exact ih (hstep h hnext) hrest

theorem forgotten_follow {steps : List (Nanoseconds × Pace)}
    (hopen : ∀ step ∈ steps, step.2 ≠ .event .shutdown) (d : Docket) (start : Session) :
    (d.follow steps start).forgotten = d.forgotten := by
  induction steps generalizing d start with
  | nil => rfl
  | cons step steps ih =>
      obtain ⟨now, p⟩ := step
      rw [follow]
      split
      · refine (ih (fun step hstep => hopen step (List.mem_cons_of_mem _ hstep)) _ _).trans ?_
        exact d.forgotten_pace now start (hopen _ List.mem_cons_self)
      · rfl

theorem follow_append {steps : List (Nanoseconds × Pace)} (later : List (Nanoseconds × Pace))
    (d : Docket) (hrun : paces? steps start = some s) :
    d.follow (steps ++ later) start = (d.follow steps start).follow later s := by
  induction steps generalizing d start with
  | nil =>
      cases hrun
      rfl
  | cons step steps ih =>
      obtain ⟨now, p⟩ := step
      obtain ⟨next, hnext, hrest⟩ := Option.bind_eq_some_iff.mp hrun
      rw [List.cons_append, follow, follow, hnext]
      exact ih _ hrest

theorem kept_of_starts {ownId : Identifier} {t : TorrentSource}
    {connectionOptions : ConnectionOptions} {policy : ReservationPolicy}
    (h : Starts ownId t connectionOptions policy start) : Kept .empty start := by
  have hbare := bare_of_starts h
  refine ⟨hbare.clean, hbare.spoken, inOrder_empty, ?_, ?_⟩
  · rw [hbare.uploads_eq]
    rfl
  · rw [hbare.backlog_eq]
    rfl

/-- Whenever entries arrive, are taken and are popped, each request that has arrived is in one
place. Requests are popped in the order in which they arrived. A request is dropped if and only if
its peer takes it back while it is in the backlog. The session serves what is popped from the
docket. -/
theorem served_in_order {ownId : Identifier} {t : TorrentSource}
    {connectionOptions : ConnectionOptions} {policy : ReservationPolicy}
    {steps : List (Nanoseconds × Pace)}
    (hstart : Starts ownId t connectionOptions policy start) (hrun : paces? steps start = some s)
    (hdocket : Docket.empty.follow steps start = d) :
    d.InOrder ∧ d.Tracks s
      ∧ (d.popped.Pairwise fun t t' => t.number < t'.number)
      ∧ (∀ t ∈ d.dropped, ∃ c ∈ d.taken, c.entry.kind = .cancel ∧ c.entry.peerId = t.entry.peerId
        ∧ c.entry.request = t.entry.request ∧ t.number < c.number ∧ t ∉ d.popped)
      ∧ ((∀ step ∈ steps, step.2 ≠ .event .shutdown) → d.forgotten = [])
      ∧ (∀ s', s.popUpload? = some s' → ∃ t rest, d.backlog = t :: rest
        ∧ s' = serve { s with backlog := rest.map Ticket.entry } t.entry)
      ∧ (∀ s', s.pickUpload? = some s' → s' = match d.takeAll.backlog with
        | [] => s.leaving []
        | t :: rest => (s.leaving (rest.map Ticket.entry)).serve t.entry) := by
  obtain ⟨_, _, hinOrder, htracks⟩ : Kept d s :=
    hdocket ▸ paces_invariant (P := Kept) (fun h hstep => h.pace hstep) (kept_of_starts hstart) hrun
  refine ⟨hinOrder, htracks, hinOrder.popped_sorted, fun t ht => hinOrder.dropped_by ht,
    fun hopen => ?_, fun s' hpop => ?_, fun s' hpick => ?_⟩
  · exact hdocket ▸ forgotten_follow hopen .empty start
  · obtain ⟨_, u, rest, hbacklog, rfl⟩ := popUpload_eq hpop
    have htickets := htracks.backlog_eq
    rw [hbacklog] at htickets
    obtain ⟨t, tickets, ht, rfl, rfl⟩ := List.map_eq_cons_iff.mp htickets
    exact ⟨t, tickets, ht, rfl⟩
  · have hwaiting := htracks.waiting
    rw [(pickUpload_eq hpick).2, ← hwaiting]
    cases d.takeAll.backlog with
    | nil => rfl
    | cons t rest => rfl

/-- A peer asks three times for the same part, and takes it back after the second time. -/
def asksAgain : List (Nanoseconds × Pace) :=
  let receive : Pace := .event (.own (.receive 0))
  let asked : Message := .request ⟨1, 0, 1⟩
  let joined : Pace := .event (joins 0 [asked, asked, .cancel ⟨1, 0, 1⟩, asked])
  -- The first step looks into the buffer and the second fills it. Then each entry takes two.
  let script : List Pace :=
    [joined, receive, receive, receive, receive, receive, receive, .take, .pop,
    receive, receive, .take, receive, receive, .take, .take, .pop]
  script.map fun p => (0, p)

/-- The first request and the last are popped, and only the second is dropped. -/
theorem served_in_order_asksAgain : ∃ start s, Starts .zero twoPieces {} {} start
    ∧ paces? asksAgain start = some s ∧ (Docket.empty.follow asksAgain start).InOrder
    ∧ (Docket.empty.follow asksAgain start).popped.map Ticket.number = [0, 3]
    ∧ (Docket.empty.follow asksAgain start).dropped.map Ticket.number = [1] := by
  have hdone : (start? .zero twoPieces {} {}).any (fun start =>
      (paces? asksAgain start).isSome
      && decide ((Docket.empty.follow asksAgain start).popped.map Ticket.number = [0, 3]
        ∧ (Docket.empty.follow asksAgain start).dropped.map Ticket.number = [1])) = true := by
    decide +kernel
  obtain ⟨start, hstart, htest⟩ := (Option.any_eq_true _ _).mp hdone
  obtain ⟨hruns, htest⟩ := Bool.and_eq_true_iff.mp htest
  obtain ⟨s, hrun⟩ := Option.isSome_iff_exists.mp hruns
  obtain ⟨hpopped, hdropped⟩ := of_decide_eq_true htest
  obtain ⟨hinOrder, _⟩ := served_in_order (starts_of_start? hstart) hrun rfl
  exact ⟨start, s, starts_of_start? hstart, hrun, hinOrder, hpopped, hdropped⟩

end Session

end TorrentCore
