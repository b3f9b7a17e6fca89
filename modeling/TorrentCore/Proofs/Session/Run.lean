import TorrentCore.Session.Action

/-!
# Runs of a session

A session goes on by its own steps and by what is done to it from outside: connections are handed
to it, their far ends write, read and close as they like, messages are sent, and it is paused,
brought in line and shut down. A run is any sequence of these, at any times. What every one of them
keeps holds after every run, which is how all that is said of reachable sessions is proved.
-/

namespace TorrentCore

namespace Session

inductive Event where
  | own (action : Action)
  /-- A connection whose handshakes were exchanged is handed over, under a number that no connection
  had before. -/
  | connect (number : Nat) (link : Link) (address : Address) (handshake : Handshake)
      (buffer : ReadBuffer)
  | farEnd (number : Nat) (link : Link)
  | disconnect (number : Nat)
  | send (number : Nat) (message : Message) (late : Bool)
  | pause
  | resume
  | dropAllPeers
  | removeFinishedPeers
  | addAddress (address : Address)
  | startConnecting (address : Address)
  | doneConnecting (address : Address)
  | shutdown

/-- A message is offered to a connection. Who sends it waits if there is no place for it. -/
def send? (s : Session) (now : Nanoseconds) (late : Bool) (number : Nat) (m : Message) :
    Option Session :=
  match deliver { s with hub := (s.hub.pack m).2 } now late number (s.hub.pack m).1 with
  | .sent s => some s
  | .refused s => some s
  | .full => none

def happen? (now : Nanoseconds) (s : Session) : Event → Option Session
  | .own action => s.act? now action
  | .connect number link address h buffer =>
    if (s.members.get? number).isSome then none
    else (s.addPeer now number link address h buffer).toOption
  | .farEnd number link =>
    some { s with members := s.members.modify number fun m => { m with link := link } }
  | .disconnect number => some (s.disconnect number)
  | .send number m late => s.send? now late number m
  | .pause => some { s with paused := true }
  | .resume => some { s with paused := false }
  | .dropAllPeers => some s.dropAllPeers
  | .removeFinishedPeers => some s.removeFinishedPeers
  | .addAddress a => some (s.addAddress a).2
  | .startConnecting a => some (s.startConnecting a)
  | .doneConnecting a => some (s.doneConnecting a)
  | .shutdown => some s.shutdown

def run? : List (Nanoseconds × Event) → Session → Option Session
  | [], s => some s
  | (now, event) :: rest, s => (s.happen? now event).bind (run? rest)

/-- What every event keeps holds after every run. -/
theorem run_invariant {P : Session → Prop}
    (hstep : ∀ {now s event s'}, P s → happen? now s event = some s' → P s')
    {events : List (Nanoseconds × Event)} {s s' : Session} (hs : P s)
    (hrun : run? events s = some s') : P s' := by
  induction events generalizing s with
  | nil =>
      cases hrun
      exact hs
  | cons entry events ih =>
      obtain ⟨now, event⟩ := entry
      obtain ⟨next, hnext, hrest⟩ := Option.bind_eq_some_iff.mp hrun
      exact ih (hstep hs hnext) hrest

theorem run?_append (events later : List (Nanoseconds × Event)) (s : Session) :
    run? (events ++ later) s = (run? events s).bind (run? later) := by
  induction events generalizing s with
  | nil => rfl
  | cons entry events ih =>
      rw [List.cons_append, run?, run?, Option.bind_assoc]
      congr 1
      funext s'
      exact ih s'

theorem run?_append_singleton {events : List (Nanoseconds × Event)} {start s s' : Session}
    {now : Nanoseconds} {event : Event} (hrun : run? events start = some s)
    (h : s.happen? now event = some s') : run? (events ++ [(now, event)]) start = some s' := by
  rw [run?_append, hrun, Option.bind_some, run?, h]
  rfl

/-- As `run_invariant`, of what depends on the events so far. -/
theorem run_history {Q : List (Nanoseconds × Event) → Session → Prop} {start s : Session}
    {events : List (Nanoseconds × Event)} (hstart : Q [] start)
    (hstep : ∀ {past now s event s'}, run? past start = some s → Q past s →
      happen? now s event = some s' → Q (past ++ [(now, event)]) s')
    (hrun : run? events start = some s) : Q events s := by
  -- The induction is on what is still to come, so that `past` grows at its end.
  have hlater : ∀ events past mid, run? past start = some mid → Q past mid →
      run? events mid = some s → Q (past ++ events) s := by
    intro events
    induction events with
    | nil =>
        intro past mid _ hq hdone
        cases hdone
        rwa [List.append_nil]
    | cons entry events ih =>
        intro past mid hpast hq hrest
        obtain ⟨next, hnext, hrest⟩ := Option.bind_eq_some_iff.mp hrest
        have hpast' : run? (past ++ [entry]) start = some next := by
          rw [run?_append, hpast, Option.bind_some, run?, hnext]
          rfl
        have hall := ih (past ++ [entry]) next hpast' (hstep hpast hq hnext) hrest
        rwa [List.append_assoc] at hall
  exact hlater events [] start rfl hstart hrun

/-- The events of a run, each with the session to which it happened. -/
def steps : List (Nanoseconds × Event) → Session → List (Session × Event)
  | [], _ => []
  | (now, event) :: rest, s => match s.happen? now event with
    | some s' => (s, event) :: steps rest s'
    | none => []

theorem steps_append_singleton {events : List (Nanoseconds × Event)} {start s s' : Session}
    {now : Nanoseconds} {event : Event} (hrun : run? events start = some s)
    (h : s.happen? now event = some s') :
    steps (events ++ [(now, event)]) start = steps events start ++ [(s, event)] := by
  induction events generalizing start with
  | nil =>
      cases hrun
      simp only [List.nil_append, steps, h]
  | cons entry events ih =>
      obtain ⟨time, first⟩ := entry
      obtain ⟨next, hnext, hrest⟩ := Option.bind_eq_some_iff.mp hrun
      have hnext' : start.happen? time first = some next := hnext
      simp only [List.cons_append, steps, hnext', ih hrest]

/-- In a run there was an event of this kind, seen with the events before it and the sessions around
it. -/
def Happened (start : Session) (past : List (Nanoseconds × Event))
    (P : List (Nanoseconds × Event) → Session → Event → Session → Prop) : Prop :=
  ∃ earlier later now event s s', past = earlier ++ (now, event) :: later
    ∧ run? earlier start = some s ∧ s.happen? now event = some s' ∧ P earlier s event s'

section Happened

variable {start s s' : Session} {past : List (Nanoseconds × Event)} {now : Nanoseconds}
  {event : Event} {P : List (Nanoseconds × Event) → Session → Event → Session → Prop}

theorem Happened.later (h : Happened start past P) (more : List (Nanoseconds × Event)) :
    Happened start (past ++ more) P := by
  obtain ⟨earlier, later, now, event, s, s', rfl, hrest⟩ := h
  exact ⟨earlier, later ++ more, now, event, s, s', List.append_assoc _ _ _, hrest⟩

theorem Happened.of_append_singleton (h : Happened start (past ++ [(now, event)]) P) :
    Happened start past P ∨ ∃ s s', run? past start = some s ∧ s.happen? now event = some s'
      ∧ P past s event s' := by
  obtain ⟨earlier, later, time, event', s, s', hpast, hrun, hstep, hP⟩ := h
  rcases List.eq_nil_or_concat later with rfl | ⟨later, last, rfl⟩
  · obtain ⟨rfl, hlast⟩ := List.append_inj' hpast rfl
    cases hlast
    exact Or.inr ⟨s, s', hrun, hstep, hP⟩
  · rw [List.concat_eq_append, ← List.cons_append, ← List.append_assoc] at hpast
    obtain ⟨rfl, _⟩ := List.append_inj' hpast rfl
    exact Or.inl ⟨earlier, later, time, event', s, s', rfl, hrun, hstep, hP⟩

theorem happened_last (hpast : run? past start = some s) (h : s.happen? now event = some s')
    (hP : P past s event s') : Happened start (past ++ [(now, event)]) P :=
  ⟨past, [], now, event, s, s', rfl, hpast, h, hP⟩

end Happened

/-! ### The start -/

/-- A session that was just made for a torrent. -/
structure Made (t : TorrentSource) (s : Session) : Prop where
  geometry_eq : Geometry.make t.geometry.totalLength t.geometry.pieceLength t.options.blockLength
    = .ok s.geometry
  hashes_eq : s.hashes = t.hashes
  options_eq : s.options = t.options
  storage_eq : s.storage = t.storage
  owned_eq : (∀ bytes, t.initial ≠ .restored bytes) → s.owned = .empty s.pieceCount
  length_allowed : ∀ allowed, t.options.allowed = some allowed → allowed.length = s.pieceCount
  members_eq : s.members = .empty
  availability_eq : s.hub.availability = .zero s.pieceCount
  unfinished_eq : s.unfinished = .empty
  verifying_eq : s.verifying = none

theorem made_of_make {ownId : Identifier} {t : TorrentSource}
    {connectionOptions : ConnectionOptions} {policy : ReservationPolicy} {s : Session}
    (h : make ownId t connectionOptions policy = .ok s) : s.Made t := by
  unfold make at h
  cases hgeometry : Geometry.make t.geometry.totalLength t.geometry.pieceLength
      t.options.blockLength with
  | error e =>
      rw [hgeometry] at h
      cases h
  | ok g =>
      rw [hgeometry] at h
      simp only [bind, Except.bind, pure, Except.pure, throw, throwThe, MonadExceptOf.throw] at h
      have hmask : ∀ allowed, t.options.allowed = some allowed →
          allowed.length = g.pieceCount.toNat := by
        intro allowed hallowed
        refine Decidable.byContradiction fun hlength => ?_
        rw [hallowed] at h
        simp only [if_pos hlength] at h
        repeat' split at h
        all_goals cases h
      -- Which set is owned first, and whether there is a mask.
      repeat' split at h
      all_goals cases h
      all_goals refine ⟨hgeometry, rfl, rfl, rfl, ?_, hmask, rfl, rfl, rfl, rfl⟩
      all_goals first
        | exact fun _ => rfl
        | exact fun hinitial => absurd ‹_› (hinitial _)

/-- Looking through the storage changes nothing but what is owned, and a piece that is marked has
the expected digest there. Whatever holds of the set at first and is kept by such a piece holds of
what comes out. -/
theorem checkExisting_induction {P : Bitfield → Prop} {s : Session} (hs : P s.owned)
    (hinsert : ∀ owned index bytes, P owned → index < s.pieceCount →
      s.storage.read (s.geometry.offsetOf ⟨UInt32.ofNat index⟩).toNat
        (s.geometry.lengthOf ⟨UInt32.ofNat index⟩).toNat = .ok bytes →
      (s.hashes.get? ⟨UInt32.ofNat index⟩).map Identifier.bytes = some (Sha1.digest bytes) →
      P (owned.insert index)) :
    ∃ owned, P owned ∧ s.checkExisting.2 = { s with owned := owned } := by
  unfold checkExisting
  have hrange : ∀ index ∈ List.range s.pieceCount, index < s.pieceCount := fun index h =>
    List.mem_range.mp h
  generalize List.range s.pieceCount = indices at hrange ⊢
  generalize hacc : ((.ok 0 : Except StorageError Nat), s) = acc
  have hstart : ∃ owned, P owned ∧ acc.2 = { s with owned := owned } := by
    rw [← hacc]
    exact ⟨s.owned, hs, rfl⟩
  clear hacc
  induction indices generalizing acc with
  | nil => exact hstart
  | cons index indices ih =>
      refine ih (fun i hi => hrange i (List.mem_cons_of_mem _ hi)) _ ?_
      obtain ⟨good, s'⟩ := acc
      obtain ⟨owned, howned, hs'⟩ := hstart
      cases hs'
      cases good with
      | error e => exact ⟨owned, howned, rfl⟩
      | ok good =>
          simp only
          split
          · exact ⟨owned, howned, rfl⟩
          next bytes hread =>
          split
          · next hdigest =>
            exact ⟨owned.insert index,
              hinsert owned index bytes howned (hrange index List.mem_cons_self) hread hdigest, rfl⟩
          · exact ⟨owned, howned, rfl⟩

/-- A session as it is when its torrent was added: with what was handed over, or with what was found
in storage. -/
inductive Starts (ownId : Identifier) (t : TorrentSource) (connectionOptions : ConnectionOptions)
    (policy : ReservationPolicy) : Session → Prop
  | unchecked {s : Session} (hinitial : t.initial ≠ .check)
      (hmake : make ownId t connectionOptions policy = .ok s) :
      Starts ownId t connectionOptions policy s
  | checked {s : Session} (hinitial : t.initial = .check)
      (hmake : make ownId t connectionOptions policy = .ok s) :
      Starts ownId t connectionOptions policy s.checkExisting.2

/-- Whatever is found in storage, only the set of what is owned depends on it. -/
theorem Starts.exists_make {ownId : Identifier} {t : TorrentSource}
    {connectionOptions : ConnectionOptions} {policy : ReservationPolicy} {start : Session}
    (h : Starts ownId t connectionOptions policy start) :
    ∃ (made : Session) (owned : Bitfield), make ownId t connectionOptions policy = .ok made
      ∧ start = { made with owned := owned } := by
  cases h with
  | unchecked _ hmake => exact ⟨start, start.owned, hmake, rfl⟩
  | @checked s _ hmake =>
      obtain ⟨owned, _, hchecked⟩ := checkExisting_induction (s := s) (P := fun _ => True) trivial
        fun _ _ _ _ _ _ _ => trivial
      exact ⟨s, owned, hmake, hchecked⟩

theorem make_eq_ok_of_toOption {ownId : Identifier} {t : TorrentSource}
    {connectionOptions : ConnectionOptions} {policy : ReservationPolicy} {s : Session}
    (h : (make ownId t connectionOptions policy).toOption = some s) :
    make ownId t connectionOptions policy = .ok s := by
  cases hmake : make ownId t connectionOptions policy with
  | ok made =>
      rw [hmake] at h
      exact congrArg Except.ok (Option.some.inj h)
  | error e =>
      rw [hmake] at h
      cases h

def start? (ownId : Identifier) (t : TorrentSource) (connectionOptions : ConnectionOptions)
    (policy : ReservationPolicy) : Option Session :=
  (make ownId t connectionOptions policy).toOption.map fun s =>
    if t.initial = .check then s.checkExisting.2 else s

theorem starts_of_start? {ownId : Identifier} {t : TorrentSource}
    {connectionOptions : ConnectionOptions} {policy : ReservationPolicy} {s : Session}
    (h : start? ownId t connectionOptions policy = some s) :
    Starts ownId t connectionOptions policy s := by
  obtain ⟨made, hmade, rfl⟩ := Option.map_eq_some_iff.mp h
  have hmake := make_eq_ok_of_toOption hmade
  split
  · next hinitial => exact .checked hinitial hmake
  · next hinitial => exact .unchecked hinitial hmake

def after? (ownId : Identifier) (t : TorrentSource) (connectionOptions : ConnectionOptions)
    (policy : ReservationPolicy) (events : List (Nanoseconds × Event)) : Option Session :=
  (make ownId t connectionOptions policy).toOption.bind fun s =>
    run? events (if t.initial = .check then s.checkExisting.2 else s)

theorem exists_run_of_after? {ownId : Identifier} {t : TorrentSource}
    {connectionOptions : ConnectionOptions} {policy : ReservationPolicy}
    {events : List (Nanoseconds × Event)} {test : Session → Bool}
    (h : (after? ownId t connectionOptions policy events).any test = true) :
    ∃ start s, Starts ownId t connectionOptions policy start ∧ run? events start = some s
      ∧ test s = true := by
  obtain ⟨s, hs, htest⟩ := (Option.any_eq_true _ _).mp h
  obtain ⟨made, hmade, hrun⟩ := Option.bind_eq_some_iff.mp hs
  exact ⟨_, s, starts_of_start? (Option.map_eq_some_iff.mpr ⟨made, hmade, rfl⟩), hrun, htest⟩

/-- Three bytes in two pieces, of which the second is in storage already. -/
def twoPieces : TorrentSource where
  infoHash := .zero
  geometry := ⟨3, 2, 1, 1, 1, 2⟩
  hashes := ⟨Sha1.digest [10, 11] ++ Sha1.digest [12]⟩
  storage := ⟨[0, 0, 12]⟩
  initial := .check
  options := { blockLength := 1 }

def joins (number : Nat) (sent : List Message) : Event :=
  .connect number ⟨(Pipe.make 4096).append (sent.flatMap Message.encode), .make 4096⟩
    ⟨.v4 [127, 0, 0, 1], UInt16.ofNat number⟩
    (.plain .zero ⟨List.replicate 20 (UInt8.ofNat (number + 1)), List.length_replicate⟩)
    (.forMessages 4096)

end Session

end TorrentCore
