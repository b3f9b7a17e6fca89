import TorrentCore.Session.Uploader
import Mathlib.Data.List.Nodup

/-!
# The docket of the uploader

Requests of peers may be equal in all they say, so to follow one of them every entry that arrives is
given a number. The docket keeps the numbered entries where the session keeps the entries: in the
channel, from which the uploader takes them in the order in which they arrived, and in the backlog,
from whose front it pops the one to serve next. It also keeps what has become of the others, and
what the uploader did, in order.

A request that was not popped was either dropped, because it was taken back while it was in the
backlog, or it is still there. `InOrder` accounts for all of them, whenever entries arrive, are
taken and are popped.
-/

namespace TorrentCore

/-- An entry that has arrived over a connection, with its place among all that have arrived. -/
structure Ticket where
  number : Nat
  source : Nat
  entry : UploadRequest
deriving DecidableEq

namespace Ticket

def isRequest (t : Ticket) : Bool := t.entry.kind == .request

theorem isRequest_iff {t : Ticket} : t.isRequest = true ↔ t.entry.kind = .request := beq_iff_eq

theorem not_isRequest {t : Ticket} (h : t.entry.kind = .cancel) : ¬ t.isRequest = true := by
  rw [isRequest_iff, h]
  exact UploadKind.noConfusion

def names (t q : Ticket) :
    Bool := q.entry.peerId == t.entry.peerId && q.entry.request == t.entry.request

end Ticket

/-- What the uploader does with the first ticket of the channel, or of the backlog. -/
inductive Act where
  | took (t : Ticket)
  | popped (t : Ticket)
deriving DecidableEq

namespace Act

def taken? : Act → Option Ticket
  | took t => some t
  | popped _ => none

def popped? : Act → Option Ticket
  | took _ => none
  | popped t => some t

end Act

structure Docket where
  arrived : List Ticket
  channel : List Ticket
  backlog : List Ticket
  acts : List Act
  /-- Requests that were taken back. -/
  dropped : List Ticket
  /-- Requests that were waiting when the uploader stopped. -/
  forgotten : List Ticket
  answered : List Ticket

namespace Docket

def empty : Docket := ⟨[], [], [], [], [], [], []⟩

def taken (d : Docket) : List Ticket := d.acts.filterMap Act.taken?

def popped (d : Docket) : List Ticket := d.acts.filterMap Act.popped?

/-- The tickets with this one put at the end, or without those that it takes back. -/
def file (tickets : List Ticket) (t : Ticket) : List Ticket :=
  match t.entry.kind with
  | .request => tickets ++ [t]
  | .cancel => tickets.filter fun q => !t.names q

def struck (tickets : List Ticket) (t : Ticket) : List Ticket :=
  match t.entry.kind with
  | .request => []
  | .cancel => tickets.filter t.names

def arrive (d : Docket) (source : Nat) (entry : UploadRequest) : Docket :=
  { d with
    arrived := d.arrived ++ [⟨d.arrived.length, source, entry⟩]
    channel := d.channel ++ [⟨d.arrived.length, source, entry⟩] }

def take (d : Docket) : Docket :=
  match d.channel with
  | [] => d
  | t :: rest => { d with
      channel := rest
      backlog := file d.backlog t
      acts := d.acts ++ [.took t]
      dropped := d.dropped ++ struck d.backlog t }

def takeMany : Nat → Docket → Docket
  | 0, d => d
  | count + 1, d => takeMany count d.take

def takeAll (d : Docket) : Docket := takeMany d.channel.length d

def pop (d : Docket) : Docket :=
  match d.backlog with
  | [] => d
  | t :: rest => { d with backlog := rest, acts := d.acts ++ [.popped t] }

def giveUp (d : Docket) : Docket :=
  { d with
    channel := []
    backlog := []
    forgotten := d.backlog ++ d.channel.filter Ticket.isRequest ++ d.forgotten }

def answer (d : Docket) : Docket := { d with answered := d.answered ++ d.popped.getLast?.toList }

/-- A withdrawal of the request was taken after the request and before that was popped. -/
def TakenBack (acts : List Act) (t : Ticket) : Prop :=
  ∃ c before after, acts = before ++ .took c :: after ∧ c.entry.kind = .cancel ∧ c.names t = true
    ∧ .took t ∈ before ∧ .popped t ∉ before

/-- What a docket says of every request that has arrived. -/
structure InOrder (d : Docket) : Prop where
  numbered : d.arrived.map Ticket.number = List.range d.arrived.length
  /-- Those that were popped, those in the backlog and those in the channel have arrived in this
  order, and each of them once. -/
  line : (d.popped ++ d.backlog ++ d.channel).Sublist d.arrived
  taken : (d.taken ++ d.channel).Sublist d.arrived
  account : (d.arrived.filter Ticket.isRequest).Perm
    (d.popped ++ d.dropped ++ d.backlog ++ d.channel.filter Ticket.isRequest ++ d.forgotten)
  waiting : ∀ t ∈ d.backlog, t.isRequest = true ∧ .took t ∈ d.acts
  settled : ∀ t, t.isRequest = true → .took t ∈ d.acts →
    t ∈ d.popped ∨ t ∈ d.dropped ∨ t ∈ d.backlog ∨ t ∈ d.forgotten
  dropped : ∀ t, t.isRequest = true → t ∉ d.forgotten → (t ∈ d.dropped ↔ TakenBack d.acts t)

variable {d : Docket} {t : Ticket} {rest : List Ticket}

theorem file_of_request (tickets : List Ticket) (h : t.entry.kind = .request) :
    file tickets t = tickets ++ [t] ∧ struck tickets t = [] := by
  rw [file, struck, h]
  exact ⟨rfl, rfl⟩

theorem file_of_cancel (tickets : List Ticket) (h : t.entry.kind = .cancel) :
    file tickets t = (tickets.filter fun q => !t.names q)
      ∧ struck tickets t = tickets.filter t.names := by
  rw [file, struck, h]
  exact ⟨rfl, rfl⟩

theorem take_of_nil (h : d.channel = []) : d.take = d := by
  rw [take, h]

theorem take_of_cons (h : d.channel = t :: rest) : d.take = { d with
    channel := rest
    backlog := file d.backlog t
    acts := d.acts ++ [.took t]
    dropped := d.dropped ++ struck d.backlog t } := by
  rw [take, h]

theorem pop_of_cons (h : d.backlog = t :: rest) :
    d.pop = { d with backlog := rest, acts := d.acts ++ [.popped t] } := by
  rw [pop, h]

theorem mem_popped : t ∈ d.popped ↔ .popped t ∈ d.acts := by
  simp only [popped, List.mem_filterMap]
  constructor
  · rintro ⟨act, hact, hpopped⟩
    cases act with
    | took _ => cases hpopped
    | popped _ => exact Option.some.inj hpopped ▸ hact
  · exact fun h => ⟨_, h, rfl⟩

/-- A request that was taken back is so for good, and only a withdrawal that is taken while the
request is in the backlog takes it back. -/
theorem takenBack_concat {acts : List Act} {act : Act} : TakenBack (acts ++ [act]) t
    ↔ TakenBack acts t ∨ ∃ c, act = .took c ∧ c.entry.kind = .cancel ∧ c.names t = true
      ∧ .took t ∈ acts ∧ .popped t ∉ acts := by
  constructor
  · rintro ⟨c, before, after, hacts, hkind, hnames, htook, hpopped⟩
    rcases List.eq_nil_or_concat after with rfl | ⟨after, last, rfl⟩
    · obtain ⟨rfl, hact⟩ := List.append_inj' hacts rfl
      cases hact
      exact Or.inr ⟨c, rfl, hkind, hnames, htook, hpopped⟩
    · rw [List.concat_eq_append, ← List.cons_append, ← List.append_assoc] at hacts
      obtain ⟨rfl, _⟩ := List.append_inj' hacts rfl
      exact Or.inl ⟨c, before, after, rfl, hkind, hnames, htook, hpopped⟩
  · rintro (⟨c, before, after, rfl, htakes⟩ | ⟨c, rfl, hkind, hnames, htook, hpopped⟩)
    · exact ⟨c, before, after ++ [act], by rw [List.append_assoc, List.cons_append], htakes⟩
    · exact ⟨c, acts, [], rfl, hkind, hnames, htook, hpopped⟩

theorem inOrder_empty : empty.InOrder where
  numbered := rfl
  line := List.Sublist.slnil
  taken := List.Sublist.slnil
  account := List.Perm.refl _
  waiting := fun _ h => absurd h List.not_mem_nil
  settled := fun _ _ h => absurd h List.not_mem_nil
  dropped := fun t _ _ => by
    refine ⟨fun h => absurd h List.not_mem_nil, ?_⟩
    rintro ⟨c, before, after, hacts, _⟩
    exact absurd (congrArg List.length hacts) (by simp [empty])

theorem InOrder.arrive (h : d.InOrder) (source : Nat) (entry : UploadRequest) :
    (d.arrive source entry).InOrder where
  numbered := by
    simp only [Docket.arrive, List.map_append, h.numbered, List.map_cons, List.map_nil,
      List.length_append, List.length_singleton, List.range_succ]
  line := by
    simp only [Docket.arrive, ← List.append_assoc]
    exact h.line.append (List.Sublist.refl _)
  taken := by
    simp only [Docket.arrive, ← List.append_assoc]
    exact h.taken.append (List.Sublist.refl _)
  account := by
    simp only [Docket.arrive, List.filter_append]
    refine (h.account.append_right _).trans ?_
    simp only [List.append_assoc]
    exact ((List.perm_append_comm.append_left _).append_left _).append_left _ |>.append_left _
  waiting := h.waiting
  settled := h.settled
  dropped := h.dropped

theorem InOrder.sorted (h : d.InOrder) :
    d.arrived.Pairwise fun t t' => t.number < t'.number :=
  List.pairwise_map.mp (h.numbered ▸ List.pairwise_lt_range)

theorem InOrder.nodup (h : d.InOrder) : d.arrived.Nodup :=
  h.sorted.imp fun hless heq => absurd (heq ▸ hless) (Nat.lt_irrefl _)

theorem InOrder.not_popped (h : d.InOrder) (ht : t ∈ d.backlog) : Act.popped t ∉ d.acts := by
  intro hpopped
  have hline := h.line.nodup h.nodup
  rw [List.append_assoc] at hline
  exact List.disjoint_of_nodup_append hline (mem_popped.mpr hpopped) (List.mem_append_left _ ht)

theorem popped_took (acts : List Act) (t : Ticket) :
    (acts ++ [Act.took t]).filterMap Act.popped? = acts.filterMap Act.popped? := by
  rw [List.filterMap_append]
  exact List.append_nil _

theorem taken_took (acts : List Act) (t : Ticket) :
    (acts ++ [Act.took t]).filterMap Act.taken? = acts.filterMap Act.taken? ++ [t] :=
  List.filterMap_append

theorem popped_popped (acts : List Act) (t : Ticket) :
    (acts ++ [Act.popped t]).filterMap Act.popped? = acts.filterMap Act.popped? ++ [t] :=
  List.filterMap_append

theorem taken_popped (acts : List Act) (t : Ticket) :
    (acts ++ [Act.popped t]).filterMap Act.taken? = acts.filterMap Act.taken? := by
  rw [List.filterMap_append]
  exact List.append_nil _

theorem InOrder.takeRequest (h : d.InOrder) (hchannel : d.channel = t :: rest)
    (hkind : t.entry.kind = .request) : InOrder { d with
      channel := rest
      backlog := d.backlog ++ [t]
      acts := d.acts ++ [.took t] } := by
  have hrequest := Ticket.isRequest_iff.mpr hkind
  obtain ⟨hnumbered, hline, htaken, haccount, hwaiting, hsettled, hdropped⟩ := h
  rw [hchannel] at hline htaken haccount
  refine ⟨hnumbered, ?_, ?_, ?_, ?_, ?_, ?_⟩
  · rw [popped, popped_took, List.append_assoc, List.append_assoc, List.singleton_append]
    rwa [List.append_assoc] at hline
  · rwa [Docket.taken, taken_took, List.append_assoc, List.singleton_append]
  · rw [List.filter_cons_of_pos hrequest] at haccount
    simpa only [popped, popped_took, List.append_assoc, List.singleton_append, List.cons_append,
      List.nil_append] using haccount
  · intro q hq
    rcases List.mem_append.mp hq with hold | hnew
    · exact ⟨(hwaiting q hold).1, List.mem_append_left _ (hwaiting q hold).2⟩
    · rw [List.mem_singleton.mp hnew]
      exact ⟨hrequest, List.mem_append_right _ List.mem_cons_self⟩
  · intro q hq htook
    rw [popped, popped_took]
    rcases List.mem_append.mp htook with hold | hnew
    · rcases hsettled q hq hold with hpopped | hdrop | hback | hforgot
      · exact Or.inl hpopped
      · exact Or.inr (Or.inl hdrop)
      · exact Or.inr (Or.inr (Or.inl (List.mem_append_left _ hback)))
      · exact Or.inr (Or.inr (Or.inr hforgot))
    · cases List.mem_singleton.mp hnew
      exact Or.inr (Or.inr (Or.inl (List.mem_append_right _ List.mem_cons_self)))
  · intro q hq hremembered
    rw [takenBack_concat, hdropped q hq hremembered]
    refine ⟨Or.inl, ?_⟩
    rintro (hback | ⟨c, hact, hcancel, _⟩)
    · exact hback
    · cases hact
      rw [hkind] at hcancel
      cases hcancel

theorem InOrder.takeCancel (h : d.InOrder) (hchannel : d.channel = t :: rest)
    (hkind : t.entry.kind = .cancel) : InOrder { d with
      channel := rest
      backlog := d.backlog.filter fun q => !t.names q
      acts := d.acts ++ [.took t]
      dropped := d.dropped ++ d.backlog.filter t.names } := by
  have hother := Ticket.not_isRequest hkind
  have hwaits : ∀ q ∈ d.backlog, Act.popped q ∉ d.acts := fun q => h.not_popped
  obtain ⟨hnumbered, hline, htaken, haccount, hwaiting, hsettled, hdropped⟩ := h
  rw [hchannel] at hline htaken haccount
  refine ⟨hnumbered, ?_, ?_, ?_, ?_, ?_, ?_⟩
  · rw [popped, popped_took]
    refine List.Sublist.trans ?_ hline
    exact ((List.Sublist.refl _).append List.filter_sublist).append (List.sublist_cons_self _ _)
  · rwa [Docket.taken, taken_took, List.append_assoc, List.singleton_append]
  · rw [List.filter_cons_of_neg hother] at haccount
    rw [popped, popped_took]
    have hparts := (List.filter_append_perm t.names d.backlog).symm
    refine haccount.trans ?_
    simp only [List.append_assoc]
    refine (List.Perm.append_left _ ?_).append_left _
    rw [← List.append_assoc (d.backlog.filter t.names)]
    exact hparts.append_right _
  · intro q hq
    obtain ⟨hq, _⟩ := List.mem_filter.mp hq
    exact ⟨(hwaiting q hq).1, List.mem_append_left _ (hwaiting q hq).2⟩
  · intro q hq htook
    rw [popped, popped_took]
    rcases List.mem_append.mp htook with hold | hnew
    · rcases hsettled q hq hold with hpopped | hdrop | hback | hforgot
      · exact Or.inl hpopped
      · exact Or.inr (Or.inl (List.mem_append_left _ hdrop))
      · cases hnames : t.names q with
        | true =>
            exact Or.inr (Or.inl (List.mem_append_right _ (List.mem_filter.mpr ⟨hback, hnames⟩)))
        | false =>
            refine Or.inr (Or.inr (Or.inl (List.mem_filter.mpr ⟨hback, ?_⟩)))
            rw [hnames]
            rfl
      · exact Or.inr (Or.inr (Or.inr hforgot))
    · cases List.mem_singleton.mp hnew
      exact absurd hq hother
  · intro q hq hremembered
    rw [takenBack_concat, List.mem_append]
    constructor
    · rintro (hdrop | hstruck)
      · exact Or.inl ((hdropped q hq hremembered).mp hdrop)
      · obtain ⟨hback, hnames⟩ := List.mem_filter.mp hstruck
        exact Or.inr ⟨t, rfl, hkind, hnames, (hwaiting q hback).2, hwaits q hback⟩
    · rintro (hback | ⟨c, hact, _, hnames, htook, hpopped⟩)
      · exact Or.inl ((hdropped q hq hremembered).mpr hback)
      · cases hact
        rcases hsettled q hq htook with hpop | hdrop | hback | hforgot
        · exact absurd (mem_popped.mp hpop) hpopped
        · exact Or.inl hdrop
        · exact Or.inr (List.mem_filter.mpr ⟨hback, hnames⟩)
        · exact absurd hforgot hremembered

theorem InOrder.take (h : d.InOrder) : d.take.InOrder := by
  cases hchannel : d.channel with
  | nil => rwa [take_of_nil hchannel]
  | cons t rest =>
      rw [take_of_cons hchannel]
      cases hkind : t.entry.kind with
      | request =>
          obtain ⟨hfile, hstruck⟩ := file_of_request d.backlog hkind
          rw [hfile, hstruck, List.append_nil]
          exact h.takeRequest hchannel hkind
      | cancel =>
          obtain ⟨hfile, hstruck⟩ := file_of_cancel d.backlog hkind
          rw [hfile, hstruck]
          exact h.takeCancel hchannel hkind

theorem InOrder.takeMany (h : d.InOrder) (count : Nat) : (takeMany count d).InOrder := by
  induction count generalizing d with
  | zero => exact h
  | succ count ih => exact ih h.take

theorem InOrder.pop (h : d.InOrder) : d.pop.InOrder := by
  cases hbacklog : d.backlog with
  | nil => rwa [Docket.pop, hbacklog]
  | cons t rest =>
  rw [pop_of_cons hbacklog]
  obtain ⟨hnumbered, hline, htakes, haccount, hwaiting, hsettled, hdropped⟩ := h
  rw [hbacklog] at hline haccount hwaiting hsettled
  refine ⟨hnumbered, ?_, ?_, ?_, ?_, ?_, ?_⟩
  · rw [popped, popped_popped, List.append_assoc (d.acts.filterMap _), List.singleton_append]
    exact hline
  · rw [Docket.taken, taken_popped]
    exact htakes
  · rw [popped, popped_popped]
    refine haccount.trans ?_
    -- The ticket moves past those that were dropped.
    simp only [List.append_assoc, List.cons_append, List.nil_append]
    exact List.perm_middle.append_left _
  · intro q hq
    obtain ⟨hrequest, htook⟩ := hwaiting q (List.mem_cons_of_mem _ hq)
    exact ⟨hrequest, List.mem_append_left _ htook⟩
  · intro q hq htook
    rw [popped, popped_popped]
    rcases List.mem_append.mp htook with hold | hnew
    · rcases hsettled q hq hold with hpop | hdrop | hback | hforgot
      · exact Or.inl (List.mem_append_left _ hpop)
      · exact Or.inr (Or.inl hdrop)
      · rcases List.mem_cons.mp hback with rfl | hback
        · exact Or.inl (List.mem_append_right _ List.mem_cons_self)
        · exact Or.inr (Or.inr (Or.inl hback))
      · exact Or.inr (Or.inr (Or.inr hforgot))
    · cases List.mem_singleton.mp hnew
  · intro q hq hremembered
    rw [takenBack_concat, hdropped q hq hremembered]
    refine ⟨Or.inl, ?_⟩
    rintro (hback | ⟨c, hact, _⟩)
    · exact hback
    · cases hact

theorem InOrder.giveUp (h : d.InOrder) : d.giveUp.InOrder := by
  obtain ⟨hnumbered, hline, htaken, haccount, hwaiting, hsettled, hdropped⟩ := h
  refine ⟨hnumbered, ?_, ?_, ?_, fun q hq => absurd hq List.not_mem_nil, ?_, ?_⟩
  · refine List.Sublist.trans ?_ hline
    exact ((List.Sublist.refl _).append (List.nil_sublist _)).append (List.nil_sublist _)
  · exact ((List.Sublist.refl _).append (List.nil_sublist _)).trans htaken
  · simpa only [Docket.giveUp, popped, List.filter_nil, List.append_nil, List.append_assoc,
      List.nil_append] using haccount
  · intro q hq htook
    rcases hsettled q hq htook with hpop | hdrop | hback | hforgot
    · exact Or.inl hpop
    · exact Or.inr (Or.inl hdrop)
    · exact Or.inr (Or.inr (Or.inr
        (List.mem_append_left _ (List.mem_append_left _ hback))))
    · exact Or.inr (Or.inr (Or.inr (List.mem_append_right _ hforgot)))
  · intro q hq hremembered
    exact hdropped q hq fun hforgot =>
      hremembered (List.mem_append_right _ hforgot)

/-- Requests are popped in the order in which they arrived, and each of them once. -/
theorem InOrder.popped_sorted (h : d.InOrder) :
    d.popped.Pairwise fun t t' => t.number < t'.number := by
  refine (h.sorted.sublist h.line).sublist ?_
  rw [List.append_assoc]
  exact List.sublist_append_left _ _

/-- What is dropped was asked for by the peer that takes it back, and before it does. -/
theorem InOrder.dropped_by (h : d.InOrder) (ht : t ∈ d.dropped) :
    ∃ c ∈ d.taken, c.entry.kind = .cancel ∧ c.entry.peerId = t.entry.peerId
      ∧ c.entry.request = t.entry.request ∧ t.number < c.number ∧ t ∉ d.popped := by
  have hnodup := h.account.nodup_iff.mp (h.nodup.filter _)
  simp only [List.append_assoc] at hnodup
  have hunpopped : t ∉ d.popped := fun hpopped => List.disjoint_of_nodup_append hnodup hpopped
    (List.mem_append_left _ ht)
  have hremembered : t ∉ d.forgotten := fun hforgot =>
    List.disjoint_of_nodup_append (List.nodup_append'.mp hnodup).2.1 ht
      (List.mem_append_right _ (List.mem_append_right _ hforgot))
  have hrequest : t.isRequest = true := by
    refine (List.mem_filter.mp (h.account.mem_iff.mpr ?_)).2
    simp only [List.mem_append, ht, true_or, or_true]
  obtain ⟨c, before, after, hacts, hkind, hnames, htook, _⟩ :=
    (h.dropped t hrequest hremembered).mp ht
  have hsplit : d.taken = before.filterMap Act.taken? ++ c :: after.filterMap Act.taken? := by
    rw [Docket.taken, hacts, List.filterMap_append]
    rfl
  have hsorted : d.taken.Pairwise fun t t' => t.number < t'.number :=
    (h.sorted.sublist h.taken).sublist (List.sublist_append_left _ _)
  obtain ⟨hpeer, hpart⟩ := Bool.and_eq_true_iff.mp hnames
  refine ⟨c, hsplit ▸ List.mem_append_right _ List.mem_cons_self, hkind, ?_, ?_, ?_, hunpopped⟩
  · exact (beq_iff_eq.mp hpeer).symm
  · exact (beq_iff_eq.mp hpart).symm
  · rw [hsplit] at hsorted
    exact (List.pairwise_append.mp hsorted).2.2 t (List.mem_filterMap.mpr ⟨_, htook, rfl⟩) c
      List.mem_cons_self

theorem InOrder.answer (h : d.InOrder) : d.answer.InOrder := ⟨h.numbered, h.line, h.taken,
  h.account, h.waiting, h.settled, h.dropped⟩

end Docket

end TorrentCore
