import TorrentCore.Proofs.Session.Queueing

/-!
# Whom an answer goes to

A request is kept under the name of its peer. When its turn comes it is answered over the connection
that the peer has then. So every piece that is put into a queue answers a request that the same peer
has sent, and no request is answered twice. But it need not be the connection over which the request
came: when that has ended and the peer has come back meanwhile, the answer to what it asked for over
the old connection goes to the new one.
-/

namespace TorrentCore

namespace Session

open Docket

variable {start s s' : Session} {now : Nanoseconds} {event : Event} {d : Desk} {n : Nat}
  {past : List (Nanoseconds × Event)}

/-! ### The docket of a run -/

def whole (events : List (Nanoseconds × Event)) : List (Nanoseconds × Pace) :=
  events.map fun entry => (entry.1, .event entry.2)

def docket (start : Session) (past : List (Nanoseconds × Event)) : Docket :=
  Docket.empty.follow (whole past) start

theorem paces?_whole (events : List (Nanoseconds × Event)) (s : Session) :
    paces? (whole events) s = run? events s := by
  induction events generalizing s with
  | nil => rfl
  | cons entry events ih =>
      rw [whole, List.map_cons, paces?, run?]
      congr 1
      funext s'
      exact ih s'

theorem docket_concat (hpast : run? past start = some s) (h : s.happen? now event = some s') :
    docket start (past ++ [(now, event)]) = (docket start past).next now s event := by
  have hsteps : paces? (whole past) start = some s := (paces?_whole past start).trans hpast
  rw [docket, whole, List.map_append]
  refine (follow_append _ .empty hsteps).trans ?_
  rw [List.map_singleton, follow, pace?, h]
  rfl

/-! ### Mail -/

theorem Errand.mail (h : s.Errand now event d) {mail : Mail} (hmail : s.desk.mail n = some mail) :
    ∃ mail', d.mail n = some mail' ∧ mail'.peerId = mail.peerId ∧ (mail.IsOwn → mail'.IsOwn) := by
  have hposted : ∀ number packet, ∃ mail', (s.desk.post number packet).mail n = some mail'
      ∧ mail'.peerId = mail.peerId ∧ (mail.IsOwn → mail'.IsOwn) := by
    intro number packet
    simp only [Desk.post]
    split
    · next heq =>
      rw [← heq, hmail]
      exact ⟨_, rfl, rfl, id⟩
    · exact ⟨mail, hmail, rfl, id⟩
  cases h with
  | quiet | turned | shutdown => exact ⟨mail, hmail, rfl, id⟩
  | spoke | sent | answered => exact hposted _ _
  | joined number _ _ _ _ hfresh =>
      have hne : n ≠ number := by
        rintro rfl
        rw [hfresh] at hmail
        cases hmail
      exact ⟨mail, (if_neg hne).trans hmail, rfl, id⟩
  | worked action number mail₀ mail' _ _ hmail₀ honward =>
      by_cases heq : n = number
      · subst heq
        cases hmail₀.symm.trans hmail
        exact ⟨mail', if_pos rfl, honward.peerId_eq, honward.own⟩
      · exact ⟨mail, (if_neg heq).trans hmail, rfl, id⟩

/-- A connection that was not there before has no packets, and its reader has read nothing. -/
theorem Errand.mail_of_none (h : s.Errand now event d) {mail : Mail}
    (hnone : s.desk.mail n = none) (hmail : d.mail n = some mail) :
    mail.queue = [] ∧ mail.reader = .decoding := by
  have hmissing : s.desk.mail n ≠ some mail := by
    rw [hnone]
    exact (Option.some_ne_none mail).symm
  have hposted : ∀ number packet, (s.desk.post number packet).mail n ≠ some mail := by
    intro number packet hsome
    simp only [Desk.post] at hsome
    split at hsome
    · next heq =>
      rw [← heq, hnone] at hsome
      cases hsome
    · exact hmissing hsome
  cases h with
  | quiet | turned | shutdown => exact absurd hmail hmissing
  | spoke | sent | answered => exact absurd hmail (hposted _ _)
  | joined number =>
      by_cases heq : n = number
      · subst heq
        cases (if_pos rfl).symm.trans hmail
        exact ⟨rfl, rfl⟩
      · exact absurd ((if_neg heq).symm.trans hmail) hmissing
  | worked action number mail₀ mail' _ _ hmail₀ =>
      by_cases heq : n = number
      · subst heq
        rw [hnone] at hmail₀
        cases hmail₀
      · exact absurd ((if_neg heq).symm.trans hmail) hmissing

/-- The connection is one of this peer. -/
def BelongsTo (s : Session) (number : Nat) (peerId : Identifier) : Prop :=
  ∃ mail, s.desk.mail number = some mail ∧ mail.peerId = peerId

theorem BelongsTo.errand {number : Nat} {peerId : Identifier} (h : s.BelongsTo number peerId)
    (herrand : s.Errand now event s'.desk) : s'.BelongsTo number peerId := by
  obtain ⟨mail, hmail, hpeer⟩ := h
  obtain ⟨mail', hmail', hsame, _⟩ := herrand.mail hmail
  exact ⟨mail', hmail', hsame.trans hpeer⟩

/-! ### What the uploader has in hand -/

def target? (s : Session) : Option (Nat × BlockRequest) :=
  match s.upload with
  | .idle => none
  | .reading number r _ | .sending number r _ => some (number, r)

/-- The request was popped last, was not answered yet, and came from the peer of the connection. -/
def InHand (d : Docket) (s : Session) (number : Nat) (r : BlockRequest) : Prop :=
  ∃ earlier t, d.popped = earlier ++ [t] ∧ d.answered.Sublist earlier ∧ t.entry.request = r
    ∧ s.BelongsTo number t.entry.peerId

/-- What a run knows of requests and of the peers they come from. -/
structure Addressed (start : Session) (past : List (Nanoseconds × Event)) (s : Session) : Prop where
  kept : Kept (docket start past) s
  serves : Serves start past s
  own : ∀ n mail, s.desk.mail n = some mail → mail.IsOwn
  listed : ∀ entry ∈ s.peers.entries, s.BelongsTo entry.2 entry.1
  sources : ∀ t ∈ (docket start past).arrived, s.BelongsTo t.source t.entry.peerId
  answered : (docket start past).answered.Sublist (docket start past).popped
  inHand : ∀ number r, s.target? = some (number, r) → InHand (docket start past) s number r

theorem target?_of_idle (h : s.upload = .idle) : s.target? = none := by
  rw [target?, h]

theorem own_errand (herrand : s.Errand now event d)
    (hown : ∀ n mail, s.desk.mail n = some mail → mail.IsOwn) {mail : Mail}
    (hmail : d.mail n = some mail) : mail.IsOwn := by
  cases hbefore : s.desk.mail n with
  | none =>
      intro u hu
      rw [(herrand.mail_of_none hbefore hmail).2] at hu
      cases hu
  | some old =>
      obtain ⟨mail', hmail', _, howns⟩ := herrand.mail hbefore
      cases hmail.symm.trans hmail'
      exact howns (hown n old hbefore)

theorem belongs_listed (herrand : s.Errand now event s'.desk) (h : s.happen? now event = some s')
    (hlisted : ∀ entry ∈ s.peers.entries, s.BelongsTo entry.2 entry.1) :
    ∀ entry ∈ s'.peers.entries, s'.BelongsTo entry.2 entry.1 := by
  rintro ⟨peerId, number⟩ hentry
  rcases peers_of_shift (shift_of_happen h) hentry with hold
      | ⟨hfresh, link, address, handshake, buffer, rfl, rfl⟩
  · exact (hlisted _ hold).errand herrand
  · rw [happen?] at h
    split at h
    · cases h
    cases hadd : s.addPeer now number link address handshake buffer with
    | ok added =>
        rw [hadd] at h
        cases h
        refine ⟨⟨handshake.peerId, .decoding, []⟩, ?_, rfl⟩
        rw [(yields_addPeer hadd).desk_eq]
        exact if_pos rfl
    | error e =>
        rw [hadd] at h
        cases h

end Session

namespace Docket

variable {d : Docket} {s : Session} {now : Nanoseconds} {event : Session.Event} {t : Ticket}

theorem takeMany_same (count : Nat) (d : Docket) :
    (takeMany count d).arrived = d.arrived ∧ (takeMany count d).popped = d.popped
      ∧ (takeMany count d).answered = d.answered := by
  induction count generalizing d with
  | zero => exact ⟨rfl, rfl, rfl⟩
  | succ count ih =>
      have hone : d.take.arrived = d.arrived ∧ d.take.popped = d.popped
          ∧ d.take.answered = d.answered := by
        cases hchannel : d.channel with
        | nil =>
            rw [take_of_nil hchannel]
            exact ⟨rfl, rfl, rfl⟩
        | cons t rest =>
            rw [take_of_cons hchannel]
            exact ⟨rfl, popped_took d.acts t, rfl⟩
      obtain ⟨harrived, hpopped, hanswered⟩ := ih d.take
      exact ⟨harrived.trans hone.1, hpopped.trans hone.2.1, hanswered.trans hone.2.2⟩

theorem pop_same (d : Docket) : d.pop.arrived = d.arrived ∧ d.pop.answered = d.answered
    ∧ d.pop.popped = d.popped ++ d.backlog.head?.toList := by
  cases hbacklog : d.backlog with
  | nil =>
      rw [pop, hbacklog]
      exact ⟨rfl, rfl, (List.append_nil _).symm⟩
  | cons t rest =>
      rw [pop_of_cons hbacklog]
      exact ⟨rfl, rfl, popped_popped d.acts t⟩

theorem next_same (d : Docket) (now : Nanoseconds) (s : Session) (hother : event.isUpload = false) :
    (d.next now s event).popped = d.popped ∧ (d.next now s event).answered = d.answered := by
  have hsilent : s.answers? now event = none := by
    unfold Session.answers?
    split
    · cases hother
    · rfl
  unfold next
  split
  · cases hother
  · exact ⟨rfl, rfl⟩
  · rw [hsilent]
    split
    · exact ⟨rfl, rfl⟩
    · next habsurd => cases habsurd
    · exact ⟨rfl, rfl⟩

theorem mem_arrived_next (h : t ∈ (d.next now s event).arrived) :
    t ∈ d.arrived ∨ s.arrival? event = some (t.source, t.entry) := by
  unfold next at h
  split at h
  · rw [(pop_same _).1, takeAll, (takeMany_same _ d).1] at h
    exact Or.inl h
  · exact Or.inl h
  · split at h
    · next harrival =>
      rcases List.mem_append.mp h with hold | hnew
      · exact Or.inl hold
      · rw [List.mem_singleton.mp hnew]
        exact Or.inr harrival
    · exact Or.inl h
    · exact Or.inl h

end Docket

namespace Session

open Docket

variable {start s s' : Session} {now : Nanoseconds} {event : Event} {d : Docket}
  {past : List (Nanoseconds × Event)}

theorem InHand.later {number : Nat} {r : BlockRequest} (h : InHand d s number r)
    (herrand : s.Errand now event s'.desk) {d' : Docket} (hpopped : d'.popped = d.popped)
    (hanswered : d'.answered = d.answered) : InHand d' s' number r := by
  obtain ⟨earlier, t, hlast, hbefore, hrequest, hbelongs⟩ := h
  exact ⟨earlier, t, hpopped.trans hlast, hanswered ▸ hbefore, hrequest, hbelongs.errand herrand⟩

/-- Answers are given in the order in which requests are popped, and once. -/
theorem answered_next (h : s.happen? now event = some s')
    (hanswered : d.answered.Sublist d.popped)
    (hhand : ∀ number r, s.target? = some (number, r) → InHand d s number r) :
    (d.next now s event).answered.Sublist (d.next now s event).popped := by
  cases hupload : event.isUpload with
  | false =>
      obtain ⟨hpopped, hsame⟩ := d.next_same now s hupload
      rw [hpopped, hsame]
      exact hanswered
  | true =>
      unfold Event.isUpload at hupload
      split at hupload
      · obtain ⟨_, hsame, hpopped⟩ := d.takeAll.pop_same
        obtain ⟨_, htaken, htook⟩ := takeMany_same d.channel.length d
        rw [next, hsame, hpopped]
        refine List.Sublist.trans ?_ (List.sublist_append_left _ _)
        rw [takeAll, htaken, htook]
        exact hanswered
      · exact hanswered
      · obtain ⟨number, r, parcel, hphase, hcases⟩ := yields_sendUpload h
        obtain ⟨earlier, t, hlast, hbefore, _⟩ := hhand number r (by rw [target?, hphase])
        rw [next_of_other rfl]
        rcases hcases with ⟨hnone, _⟩ | ⟨hsome, _⟩
        · rw [hnone]
          exact hanswered
        · rw [hsome]
          show (d.answered ++ d.popped.getLast?.toList).Sublist d.popped
          rw [hlast, List.getLast?_concat]
          exact hbefore.append (List.Sublist.refl _)
      · cases hupload

theorem addressed_happen (hpast : run? past start = some s) (haddressed : Addressed start past s)
    (h : s.happen? now event = some s') : Addressed start (past ++ [(now, event)]) s' := by
  obtain ⟨hkept, hserves, hown, hlisted, hsources, hanswered, hhand⟩ := haddressed
  obtain ⟨desk, herrand, hyields⟩ := errand_of_happen hkept.clean hkept.spoken h
  obtain rfl := hyields.desk_eq
  have hdocket := docket_concat hpast h
  refine ⟨hdocket ▸ hkept.next h, serves_happen hpast hserves h,
    fun n mail => own_errand herrand hown, belongs_listed herrand h hlisted, ?_, ?_, ?_⟩
  · rw [hdocket]
    intro t ht
    rcases mem_arrived_next ht with hold | hnew
    · exact (hsources t hold).errand herrand
    · obtain ⟨mail, _, _, hmail, hreader, _⟩ := arrival?_eq_some hnew
      have hbelongs : s.BelongsTo t.source t.entry.peerId :=
        ⟨mail, hmail, (hown _ mail hmail t.entry hreader).symm⟩
      exact hbelongs.errand herrand
  · rw [hdocket]
    exact answered_next h hanswered hhand
  · rw [hdocket]
    obtain ⟨sent, hcourse⟩ := course_happen hserves h
    intro number r htarget
    -- The uploader has nothing in hand.
    have hidle : s'.upload = .idle → InHand ((docket start past).next now s event) s' number r := by
      intro hidle
      rw [target?_of_idle hidle] at htarget
      cases htarget
    cases hcourse with
    | passes _ _ hother hpasses =>
        rw [target?, hpasses.upload_eq] at htarget
        obtain ⟨hpopped, hsame⟩ := (docket start past).next_same now s hother
        exact (hhand number r htarget).later herrand hpopped hsame
    | read number' r' packet written block hphase =>
        cases htarget
        exact (hhand number r (by rw [target?, hphase])).later herrand rfl rfl
    | nothingWaits hidle' => exact hidle hidle'
    | shutdown | unreadable | queued | refused => exact hidle rfl
    | picked u rest _ hidle' hwaiting hserving =>
        cases hserving with
        | passedOver | expelled => exact hidle hidle'
        | granted number' packet hgrants =>
            cases htarget
            have hbacklog := hkept.tracks.waiting
            rw [hwaiting] at hbacklog
            obtain ⟨t, tickets, hfirst, rfl, _⟩ := List.map_eq_cons_iff.mp hbacklog
            obtain ⟨_, hsame, hpopped⟩ := (docket start past).takeAll.pop_same
            obtain ⟨_, htaken, htook⟩ :=
              takeMany_same (docket start past).channel.length (docket start past)
            have hbelongs : s.BelongsTo number t.entry.peerId :=
              hlisted _ (Table.mem_of_get? hgrants.listed)
            refine ⟨(docket start past).popped, t, ?_, ?_, rfl, hbelongs.errand herrand⟩
            · rw [next, hpopped, hfirst, takeAll, htaken]
              rfl
            · rw [next, hsame, takeAll, htook]
              exact hanswered

theorem addressed_of_starts {ownId : Identifier} {t : TorrentSource}
    {connectionOptions : ConnectionOptions} {policy : ReservationPolicy}
    (h : Starts ownId t connectionOptions policy start) : Addressed start [] start := by
  have hbare := bare_of_starts h
  have hnobody : ∀ n, start.desk.mail n = none := by
    intro n
    show (start.members.get? n).map _ = none
    rw [hbare.members_eq]
    rfl
  refine ⟨kept_of_starts h, serves_of_starts h, fun n mail hmail => ?_, fun entry hentry => ?_,
    fun t ht => absurd ht List.not_mem_nil, List.Sublist.slnil, fun number r htarget => ?_⟩
  · rw [hnobody n] at hmail
    cases hmail
  · rw [hbare.peers_eq] at hentry
    exact absurd hentry List.not_mem_nil
  · rw [target?_of_idle hbare.idle] at htarget
    cases htarget

/-! ### What is put into the queues -/

def queued (s : Session) (number : Nat) : List Buffer :=
  ((s.desk.mail number).map Mail.queue).getD []

/-- The packet answers this request over this connection. The request has arrived over a connection
of the same peer, and neither it nor any that arrived after it was answered before. -/
structure Answer (d : Docket) (s : Session) (number : Nat) (packet : Buffer) (t : Ticket) :
    Prop where
  arrived : t ∈ d.arrived
  kind_eq : t.entry.kind = .request
  source : s.BelongsTo t.source t.entry.peerId
  target : s.BelongsTo number t.entry.peerId
  frame : ∃ block : Bytes, block.length = t.entry.request.length.toNat ∧ packet.bytes
    = Message.encode (.piece t.entry.request.index t.entry.request.offset block)
  first : ∀ t' ∈ d.answered, t'.number < t.number

/-- What an event may do to the queue of a connection. -/
inductive Posting (now : Nanoseconds) (s : Session) (d : Docket) (number : Nat) :
    Event → List Buffer → Prop
  /-- The writer has taken packets, if anything happens, or the connection has ended. -/
  | fewer (event : Event) (queue : List Buffer) (hless : queue <:+ s.queued number) :
      Posting now s d number event queue
  | spoke (event : Event) (packet : Buffer) (m : Message) (hmessage : ¬ m.IsPiece)
      (hpacket : packet.bytes = m.encode) :
      Posting now s d number event (s.queued number ++ [packet])
  | sent (packet : Buffer) (m : Message) (late : Bool) (hpacket : packet.bytes = m.encode) :
      Posting now s d number (.send number m late) (s.queued number ++ [packet])
  | answered (packet : Buffer) (t : Ticket) (late : Bool) (hanswer : Answer d s number packet t)
      (hnoted : (d.next now s (.own (.sendUpload late))).answered = d.answered ++ [t]) :
      Posting now s d number (.own (.sendUpload late)) (s.queued number ++ [packet])

theorem queued_eq {number : Nat} (hmail : s'.desk.mail number = s.desk.mail number) :
    s'.queued number = s.queued number := by
  rw [queued, hmail]
  rfl

theorem queued_of_mail {number : Nat} {mail : Mail} (hmail : s.desk.mail number = some mail) :
    s.queued number = mail.queue := by
  rw [queued, hmail]
  rfl

theorem queued_post {number : Nat} {packet : Buffer} (hdesk : s'.desk = s.desk.post number packet)
    (n : Nat) : s'.queued n = s.queued n ∨ n = number ∧ s'.queued n = s.queued n ++ [packet] := by
  have hmail : s'.desk.mail n = if n = number then (s.desk.mail number).map (Mail.post packet)
      else s.desk.mail n := by
    rw [hdesk]
    rfl
  by_cases heq : n = number
  · subst heq
    rw [if_pos rfl] at hmail
    cases hbefore : s.desk.mail n with
    | none =>
        rw [hbefore] at hmail
        exact Or.inl (queued_eq (hmail.trans hbefore.symm))
    | some mail =>
        rw [hbefore, Option.map_some] at hmail
        refine Or.inr ⟨rfl, ?_⟩
        rw [queued_of_mail hmail, queued_of_mail hbefore]
        rfl
  · exact Or.inl (queued_eq (hmail.trans (if_neg heq)))

theorem answer_of_inHand (haddressed : Addressed start past s) {number : Nat} {r : BlockRequest}
    {parcel : Parcel} (hphase : s.upload = .sending number r parcel) :
    ∃ earlier t, (docket start past).popped = earlier ++ [t]
      ∧ Answer (docket start past) s number parcel.packet t := by
  obtain ⟨hkept, hserves, _, _, hsources, _, hhand⟩ := haddressed
  obtain ⟨earlier, t, hlast, hbefore, rfl, hbelongs⟩ := hhand number r (by rw [target?, hphase])
  obtain ⟨block, ⟨_, _, _, _, _, hblock⟩, _, hpacket⟩ := hserves.sending number _ parcel hphase
  have hpopped : t ∈ (docket start past).popped :=
    hlast ▸ List.mem_append_right _ List.mem_cons_self
  have hrequest : t ∈ (docket start past).arrived.filter Ticket.isRequest := by
    refine hkept.inOrder.account.mem_iff.mpr ?_
    simp only [List.mem_append, hpopped, true_or]
  obtain ⟨harrived, hkind⟩ := List.mem_filter.mp hrequest
  refine ⟨earlier, t, hlast, harrived, Ticket.isRequest_iff.mp hkind, hsources t harrived, hbelongs,
    ⟨block, length_of_requested hblock, hpacket⟩, fun t' ht' => ?_⟩
  have hsorted := hkept.inOrder.popped_sorted
  rw [hlast] at hsorted
  exact (List.pairwise_append.mp hsorted).2.2 t' (hbefore.subset ht') t List.mem_cons_self

theorem posting_happen (haddressed : Addressed start past s) (h : s.happen? now event = some s')
    (number : Nat) : Posting now s (docket start past) number event (s'.queued number) := by
  obtain ⟨desk, herrand, hyields⟩ :=
    errand_of_happen haddressed.kept.clean haddressed.kept.spoken h
  have hdesk := hyields.desk_eq
  have hsame : s'.queued number = s.queued number →
      Posting now s (docket start past) number event (s'.queued number) := by
    intro hqueue
    rw [hqueue]
    exact .fewer event _ List.suffix_rfl
  cases herrand with
  | quiet | turned | shutdown => exact hsame (queued_eq (congrArg (fun k => k.mail number) hdesk))
  | joined number' link address handshake buffer =>
      by_cases heq : number = number'
      · -- Nothing is queued for a new connection.
        have hmail : s'.desk.mail number = some ⟨handshake.peerId, .decoding, []⟩ := by
          rw [hdesk]
          exact if_pos heq
        rw [queued_of_mail hmail]
        exact .fewer _ _ List.nil_suffix
      · refine hsame (queued_eq ?_)
        rw [hdesk]
        exact if_neg heq
  | worked action number' mail mail' _ _ hmail honward =>
      by_cases heq : number = number'
      · subst heq
        have hmail' : s'.desk.mail number = some mail' := by
          rw [hdesk]
          exact if_pos rfl
        rw [queued_of_mail hmail']
        exact .fewer _ _ (queued_of_mail hmail ▸ honward.queue)
      · refine hsame (queued_eq ?_)
        rw [hdesk]
        exact if_neg heq
  | spoke _ number' packet m _ hm hpacket =>
      rcases queued_post hdesk number with hqueue | ⟨_, hqueue⟩
      · exact hsame hqueue
      · rw [hqueue]
        exact .spoke _ packet m hm hpacket
  | sent number' packet m late hpacket =>
      rcases queued_post hdesk number with hqueue | ⟨rfl, hqueue⟩
      · exact hsame hqueue
      · rw [hqueue]
        exact .sent packet m late hpacket
  | answered late number' r parcel hphase hanswers =>
      rcases queued_post hdesk number with hqueue | ⟨rfl, hqueue⟩
      · exact hsame hqueue
      · rw [hqueue]
        obtain ⟨earlier, t, hlast, hanswer⟩ := answer_of_inHand haddressed hphase
        refine .answered parcel.packet t late hanswer ?_
        rw [next_of_other rfl, hanswers]
        show (docket start past).answered ++ (docket start past).popped.getLast?.toList = _
        rw [hlast, List.getLast?_concat]
        rfl

/-- In every run, whatever is put into a queue from inside the session is a message without a block
or the answer to a request. The request has come from the peer of the connection, and requests are
answered in the order in which they came and each of them once. If the peer had no other connection,
the request has come over this one. -/
theorem answers_addressed {ownId : Identifier} {t : TorrentSource}
    {connectionOptions : ConnectionOptions} {policy : ReservationPolicy}
    (hstart : Starts ownId t connectionOptions policy start) (hrun : run? past start = some s)
    (hstep : s.happen? now event = some s') (number : Nat) :
    Posting now s (docket start past) number event (s'.queued number)
      ∧ ((docket start past).answered.Pairwise fun t t' => t.number < t'.number)
      ∧ docket start (past ++ [(now, event)]) = (docket start past).next now s event
      ∧ ∀ packet t, Answer (docket start past) s number packet t →
        (∀ n, s.BelongsTo n t.entry.peerId → n = number) → t.source = number := by
  have haddressed : Addressed start past s :=
    run_history (Q := Addressed start) (addressed_of_starts hstart) addressed_happen hrun
  refine ⟨posting_happen haddressed hstep number, ?_, docket_concat hrun hstep,
    fun packet t hanswer honly => honly _ hanswer.source⟩
  exact haddressed.kept.inOrder.popped_sorted.sublist haddressed.answered

/-- The piece that was asked for over a connection is queued for it, and its request is the first
that is answered. -/
theorem answers_addressed_seeding : ∃ start s s', Starts .zero twoPieces {} {} start
    ∧ run? seeding start = some s ∧ s.happen? 0 (.own (.sendUpload false)) = some s'
    ∧ Posting 0 s (docket start seeding) 0 (.own (.sendUpload false)) (s'.queued 0)
    ∧ (s'.queued 0).map Buffer.bytes
      = (s.queued 0).map Buffer.bytes ++ [Message.encode (.piece 1 0 [12])]
    ∧ ((docket start (seeding ++ [(0, .own (.sendUpload false))])).answered.map fun t =>
      (t.number, t.source)) = [(0, 0)] := by
  have hdone : (start? .zero twoPieces {} {}).any (fun start =>
      (run? seeding start).any fun s => (s.happen? 0 (.own (.sendUpload false))).any fun s' =>
        decide ((s'.queued 0).map Buffer.bytes
            = (s.queued 0).map Buffer.bytes ++ [Message.encode (.piece 1 0 [12])]
          ∧ ((docket start (seeding ++ [(0, .own (.sendUpload false))])).answered.map fun t =>
            (t.number, t.source)) = [(0, 0)])) = true := by
    decide +kernel
  obtain ⟨start, hstart, htest⟩ := (Option.any_eq_true _ _).mp hdone
  obtain ⟨s, hrun, htest⟩ := (Option.any_eq_true _ _).mp htest
  obtain ⟨s', hstep, htest⟩ := (Option.any_eq_true _ _).mp htest
  obtain ⟨hqueue, hanswered⟩ := of_decide_eq_true htest
  have hposting := (answers_addressed (starts_of_start? hstart) hrun hstep 0).1
  exact ⟨start, s, s', starts_of_start? hstart, hrun, hstep, hposting, hqueue, hanswered⟩

/-- A peer asks for the piece that we have and leaves. It comes back under the same identifier, asks
for nothing, and is unchoked before the uploader has its turn. -/
def asksAndLeaves : List (Nanoseconds × Event) :=
  let receive : Event := .own (.receive 0)
  let request : Event := .own (.request 1 [])
  let back : Event := .connect 1 ⟨.make 4096, .make 4096⟩ ⟨.v4 [127, 0, 0, 1], 2⟩
    (.plain .zero ⟨List.replicate 20 (UInt8.ofNat 1), List.length_replicate⟩) (.forMessages 4096)
  ([joins 0 [.request ⟨1, 0, 1⟩], receive, receive, receive, receive, .disconnect 0, .own (.stop 0),
    .own (.closeOut 0), back, request, request, request, request, .own .pickUpload,
    .own .readUpload] : List Event).map fun event => (0, event)

/-- The piece is queued for the new connection, over which nothing has arrived. -/
theorem sameConnection_fails : ¬ ∀ (ownId : Identifier) (t : TorrentSource)
    (connectionOptions : ConnectionOptions) (policy : ReservationPolicy) (start s s' : Session)
    (events : List (Nanoseconds × Event)) (now : Nanoseconds) (number : Nat) (packet : Buffer)
    (index offset : UInt32) (block : Bytes), Starts ownId t connectionOptions policy start →
    run? events start = some s → s.happen? now (.own (.sendUpload false)) = some s' →
    s'.queued number = s.queued number ++ [packet] →
    packet.bytes = Message.encode (.piece index offset block) →
    ∃ t ∈ (docket start events).arrived, t.source = number := by
  intro haddressed
  have hdone : (start? .zero twoPieces {} {}).any (fun start =>
      (run? asksAndLeaves start).any fun s => (s.happen? 0 (.own (.sendUpload false))).any fun s' =>
        (s'.queued 1).getLast?.any fun packet => decide (s'.queued 1 = s.queued 1 ++ [packet]
          ∧ packet.bytes = Message.encode (.piece 1 0 [12])
          ∧ ∀ t ∈ (docket start asksAndLeaves).arrived, t.source ≠ 1)) = true := by
    decide +kernel
  obtain ⟨start, hstart, htest⟩ := (Option.any_eq_true _ _).mp hdone
  obtain ⟨s, hrun, htest⟩ := (Option.any_eq_true _ _).mp htest
  obtain ⟨s', hstep, htest⟩ := (Option.any_eq_true _ _).mp htest
  obtain ⟨packet, _, htest⟩ := (Option.any_eq_true _ _).mp htest
  obtain ⟨hqueue, hpacket, hnone⟩ := of_decide_eq_true htest
  obtain ⟨t, ht, hsource⟩ := haddressed _ _ _ _ start s s' asksAndLeaves 0 1 packet 1 0 [12]
    (starts_of_start? hstart) hrun hstep hqueue hpacket
  exact hnone t ht hsource

end Session

end TorrentCore
