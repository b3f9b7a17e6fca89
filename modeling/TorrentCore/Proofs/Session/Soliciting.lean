import TorrentCore.Proofs.Connection.Telling
import TorrentCore.Proofs.Selection
import TorrentCore.Proofs.Session.Claims

/-!
# What is asked for

A requester picks a piece that its peer has told of and that the mask lets in. It reserves only what
it has picked, and a piece gets an owner only when a requester reserves it. Between these steps any
time may pass: the record of the peer may change, the reservation may run out and the connection may
close. So the invariants speak of what has happened in the run, not of what is still so.
-/

namespace TorrentCore

/-- The mask lets a piece in, if there is one. -/
def SessionOptions.Allows (o : SessionOptions) (index : Nat) : Prop :=
  ∀ allowed, o.allowed = some allowed → allowed.getD index false = true

namespace Session

variable {start s s' : Session} {past : List (Nanoseconds × Event)} {now : Nanoseconds}
  {event : Event} {number index : Nat}

/-! ### The mask -/

theorem contains_foldl_insert {wanted : List Bool} {indices : List Nat} {f : Bitfield}
    (hwell : f.WellFormed) (hindices : ∀ i ∈ indices, i < f.pieceCount) (index : Nat) :
    (indices.foldl (fun f i => if wanted.getD i false then f.insert i else f) f).contains index
        = (f.contains index || (decide (index ∈ indices) && wanted.getD index false))
      ∧ (indices.foldl (fun f i => if wanted.getD i false then f.insert i else f) f).pieceCount
        = f.pieceCount := by
  induction indices generalizing f with
  | nil => exact ⟨by simp, rfl⟩
  | cons first indices ih =>
      have hfirst := hindices first List.mem_cons_self
      have hrest : ∀ i ∈ indices, i < f.pieceCount := fun i hi =>
        hindices i (List.mem_cons_of_mem _ hi)
      rw [List.foldl_cons]
      split
      · next hwanted =>
        obtain ⟨hcontains, hcount⟩ := ih (hwell.insert first) hrest
        refine ⟨?_, hcount⟩
        rw [hcontains, Bitfield.contains_insert hwell hfirst, Bool.eq_iff_iff]
        simp only [Bool.or_eq_true, Bool.and_eq_true, decide_eq_true_eq, List.mem_cons]
        constructor
        · rintro ((hbefore | rfl) | ⟨hmem, hindex⟩)
          · exact Or.inl hbefore
          · exact Or.inr ⟨Or.inl rfl, hwanted⟩
          · exact Or.inr ⟨Or.inr hmem, hindex⟩
        · rintro (hbefore | ⟨rfl | hmem, hindex⟩)
          · exact Or.inl (Or.inl hbefore)
          · exact Or.inl (Or.inr rfl)
          · exact Or.inr ⟨hmem, hindex⟩
      · next hunwanted =>
        obtain ⟨hcontains, hcount⟩ := ih hwell hrest
        refine ⟨?_, hcount⟩
        rw [hcontains, Bool.eq_iff_iff]
        simp only [Bool.or_eq_true, Bool.and_eq_true, decide_eq_true_eq, List.mem_cons]
        refine or_congr_right (and_congr_left fun hindex => ?_)
        exact ⟨Or.inr, fun hmem => hmem.resolve_left fun heq => hunwanted (heq ▸ hindex)⟩

theorem contains_setOfBools (wanted : List Bool) (index : Nat) :
    (setOfBools wanted).contains index
        = (decide (index < wanted.length) && wanted.getD index false)
      ∧ (setOfBools wanted).pieceCount = wanted.length := by
  have hrange : ∀ i ∈ List.range wanted.length, i < (Bitfield.empty wanted.length).pieceCount :=
    fun i hi => List.mem_range.mp hi
  obtain ⟨hcontains, hcount⟩ :=
    contains_foldl_insert (Bitfield.wellFormed_empty wanted.length) hrange index
  rw [Bitfield.contains_empty, Bool.false_or, decide_eq_decide.mpr List.mem_range] at hcontains
  exact ⟨hcontains, hcount⟩

/-- A mask that was accepted has a truth value for every piece. -/
def Masked (s : Session) : Prop :=
  ∀ allowed, s.options.allowed = some allowed → allowed.length = s.pieceCount

/-! ### What peers tell -/

/-- The peer of a connection told of a piece: the reader took a message that says so. -/
def Announced (start : Session) (past : List (Nanoseconds × Event)) (number index : Nat) : Prop :=
  Happened start past fun _ s event _ => event = .own (.receive number) ∧ ∃ e m,
    s.endpoint? number = some e ∧ e.dispatches? = some m ∧ m.tellsOf index = true

structure Told (start : Session) (past : List (Nanoseconds × Event)) (pieceCount number : Nat)
    (pieces : Bitfield) : Prop where
  wellFormed : pieces.WellFormed
  pieceCount_eq : pieces.pieceCount = pieceCount
  announced : ∀ index, pieces.contains index = true → Announced start past number index

theorem Told.later {pieceCount : Nat} {pieces : Bitfield}
    (h : Told start past pieceCount number pieces) (more : List (Nanoseconds × Event)) :
    Told start (past ++ more) pieceCount number pieces :=
  ⟨h.wellFormed, h.pieceCount_eq, fun index hindex => (h.announced index hindex).later more⟩

def AllTold (start : Session) (past : List (Nanoseconds × Event)) (s : Session) : Prop :=
  ∀ number st, s.roll.standing number = some st → Told start past s.pieceCount number st.pieces

theorem allTold_happen (hpast : run? past start = some s) (htold : AllTold start past s)
    (h : s.happen? now event = some s') : AllTold start (past ++ [(now, event)]) s' := by
  intro number st hst
  rw [(gains_happen h).pieceCount_eq]
  have hsame : s.roll.standing number = some st →
      Told start (past ++ [(now, event)]) s.pieceCount number st.pieces := fun hbefore =>
    (htold number st hbefore).later _
  cases happen_cases h with
  | quiet s' houtline =>
      rw [roll_of_outline houtline] at hst
      exact hsame hst
  | connection number' e e' he hrecorded hread =>
      rw [roll_putEndpoint he] at hst
      simp only [Roll.enter] at hst
      split at hst
      · next heq =>
        cases hst
        subst heq
        have hbefore := htold number _ (standing_of_endpoint? he).1
        obtain ⟨hwell, hcount⟩ := hrecorded.wellFormed hbefore.wellFormed
        refine ⟨hwell, hcount.trans hbefore.pieceCount_eq, fun index hindex => ?_⟩
        rcases hread with hpieces | ⟨rfl, hreceive⟩
        · have hold : e'.connection.pieces.contains index = true := hindex
          rw [hpieces] at hold
          exact (hbefore.announced index hold).later _
        · rcases Endpoint.contains_receive hreceive hbefore.wellFormed hindex with
            hold | ⟨m, htaken, htells⟩
          · exact (hbefore.announced index hold).later _
          · exact happened_last hpast h ⟨rfl, e, m, he, htaken, htells⟩
      · exact hsame hst
  | joined number' m s' hfresh hbegins hmembers _ _ =>
      have hget : (s'.members.get? number).map (fun m => standing m.connection) = some st := hst
      rw [hmembers, Table.get?_insert] at hget
      split at hget
      · cases hget
        show Told _ _ _ _ m.connection.pieces
        rw [hbegins.pieces_eq]
        refine ⟨Bitfield.wellFormed_empty _, rfl, fun index hindex => ?_⟩
        rw [Bitfield.contains_empty] at hindex
        cases hindex
      · exact hsame hget
  | consumed s' hconsume =>
      rw [(roll_consume hconsume).1] at hst
      exact hsame hst
  | finished s' hfinish =>
      rw [(roll_finishPiece hfinish).1] at hst
      exact hsame hst
  | shutdown =>
      rw [roll_of_outline (outline_shutdown s)] at hst
      exact hsame hst

/-! ### What requesters reserve -/

/-- A requester reserved a piece, after its peer had told of it. -/
def Solicited (start : Session) (past : List (Nanoseconds × Event)) (index : Nat) : Prop :=
  Happened start past fun earlier s event s' => ∃ number coins,
    event = .own (.request number coins) ∧ s.reservations.isReserved index = false
      ∧ s'.reservations.isReserved index = true ∧ Announced start earlier number index

/-- A piece that may be fetched and was asked for. -/
structure Sought (start : Session) (past : List (Nanoseconds × Event)) (index : Nat) : Prop where
  allowed : start.options.Allows index
  solicited : Solicited start past index

theorem Sought.later (h : Sought start past index) (more : List (Nanoseconds × Event)) :
    Sought start (past ++ more) index :=
  ⟨h.allowed, Happened.later h.solicited more⟩

theorem candidate_of_picks (h : s.Picks number index) : ∃ m, s.members.get? number = some m
    ∧ (s.selection m.connection true).Candidate index := by
  obtain ⟨m, coins, hm, _, hpick⟩ := h
  have hsuggested : (((s.selection m.connection true).suggest scriptedCoin
      : StateM (List Bool) Suggestion) coins).1 = .piece index := by
    unfold pick at hpick
    split at hpick
    · next hsuggest =>
      cases hpick
      rw [hsuggest]
    · cases hpick
  exact ⟨m, hm, Selection.candidate_of_suggest hsuggested⟩

/-- What is picked for a connection may be fetched, and the peer has told of it. -/
theorem of_picks (hmasked : s.Masked) (htold : AllTold start past s) (h : s.Picks number index) :
    s.options.Allows index ∧ Announced start past number index := by
  obtain ⟨m, hm, hcandidate⟩ := candidate_of_picks h
  have hlt : index < s.pieceCount := hcandidate.lt
  refine ⟨fun allowed hallowed => ?_, ?_⟩
  · have hview := hcandidate.allowed (setOfBools allowed).view
      (by rw [selection, hallowed]; rfl)
    obtain ⟨hcontains, hcount⟩ := contains_setOfBools allowed index
    rw [← hmasked allowed hallowed, ← hcount] at hlt
    rw [← Bitfield.contains_eq_has hlt, hcontains, Bool.and_eq_true] at hview
    exact hview.2
  · have hrecord := htold number (standing m.connection)
      (congrArg (Option.map fun m : Member => standing m.connection) hm)
    refine hrecord.announced index ?_
    have hcount : m.connection.pieces.pieceCount = s.pieceCount := hrecord.pieceCount_eq
    rw [← hcount] at hlt
    exact (Bitfield.contains_eq_has hlt).trans hcandidate.peer

/-- Who is about to claim a piece has picked it, and what has an owner was reserved. -/
structure Prompted (start : Session) (past : List (Nanoseconds × Event)) (s : Session) : Prop where
  claiming : ∀ number d index, s.register.duty number = some d → d.requester.final = .claiming index
    →
    start.options.Allows index ∧ Announced start past number index
  owner : ∀ index owner, s.owners.get? index = some owner → Sought start past index

theorem prompted_happen (hpast : run? past start = some s) (hmasked : s.Masked)
    (hwell : s.reservations.reserved.WellFormed) (htold : AllTold start past s)
    (hprompted : Prompted start past s) (h : s.happen? now event = some s') :
    Prompted start (past ++ [(now, event)]) s' := by
  have hshift := shift_of_happen h
  have hoptions : s.options = start.options := (constant_run hpast).2
  refine ⟨fun number d' index hduty' hfinal => ?_, fun index owner howner => ?_⟩
  · have hbefore : ∀ d, s.register.duty number = some d → d.requester.final = .claiming index →
        start.options.Allows index ∧ Announced start (past ++ [(now, event)]) number index := by
      intro d hduty hd
      obtain ⟨hallowed, hannounced⟩ := hprompted.claiming number d index hduty hd
      exact ⟨hallowed, hannounced.later _⟩
    cases hduty : s.register.duty number with
    | none =>
        rcases fresh_of_shift hshift hduty with hnone | ⟨_, _, _, _, _, _, _, hnew⟩
        · cases hnone.symm.trans hduty'
        · cases hnew.symm.trans hduty'
          cases hfinal
    | some d =>
        obtain ⟨d₀, hduty₀, hchange⟩ := change_of_shift hshift hduty
        cases hduty₀.symm.trans hduty'
        cases hchange with
        | same | onward | ended | told | relinked => exact hbefore _ hduty hfinal
        | closedOut => cases hfinal
        | asked coins r refused _ _ _ _ hclaiming =>
            have hr : r.final = .claiming index := by
              cases refused <;> exact hfinal
            rcases hclaiming index hr with hold | hpicks
            · exact hbefore d hduty hold
            · obtain ⟨hallowed, hannounced⟩ := of_picks hmasked htold hpicks
              exact ⟨hoptions ▸ hallowed, hannounced.later _⟩
  · rcases owners_of_shift hshift howner with hold | ⟨number, coins, d, hevent, hduty, hclaiming,
      hreserve⟩
    · exact (hprompted.owner index owner hold).later _
    · have hfinal : d.requester.final = .claiming index := by
        rw [hclaiming]
        rfl
      obtain ⟨hallowed, hannounced⟩ := hprompted.claiming number d index hduty hfinal
      obtain ⟨hfree, hreserved⟩ := Reservations.isReserved_of_reserve? hwell hreserve
      exact ⟨hallowed, happened_last hpast h ⟨number, coins, hevent, hfree, hreserved, hannounced⟩⟩

/-! ### Runs -/

variable {ownId : Identifier} {t : TorrentSource} {connectionOptions : ConnectionOptions}
  {policy : ReservationPolicy}

theorem allTold_run (hstart : Starts ownId t connectionOptions policy start)
    (hrun : run? past start = some s) : AllTold start past s := by
  refine run_history (Q := AllTold start) (fun number st hst => ?_) allTold_happen hrun
  obtain ⟨made, owned, hmake, rfl⟩ := hstart.exists_make
  have hmembers := (made_of_make hmake).members_eq
  have hget : (made.members.get? number).map (fun m => standing m.connection) = some st := hst
  rw [hmembers] at hget
  cases hget

theorem masked_run (hstart : Starts ownId t connectionOptions policy start)
    (hrun : run? past start = some s) : s.Masked := by
  obtain ⟨hgeometry, hoptions⟩ := constant_run hrun
  obtain ⟨made, owned, hmake, rfl⟩ := hstart.exists_make
  have hmade := made_of_make hmake
  intro allowed hallowed
  rw [pieceCount, hgeometry]
  rw [hoptions] at hallowed
  exact hmade.length_allowed allowed (hmade.options_eq ▸ hallowed)

theorem prompted_run (hstart : Starts ownId t connectionOptions policy start)
    (hrun : run? past start = some s) : Prompted start past s := by
  refine run_history (Q := Prompted start) ?_ ?_ hrun
  · have hregister := (begins_of_starts hstart).2.2
    have howners : start.owners = .empty := congrArg Register.owners hregister
    refine ⟨fun number d index hduty => ?_, fun index owner howner => ?_⟩
    · rw [hregister] at hduty
      cases hduty
    · rw [howners] at howner
      cases howner
  · intro past now s event s' hpast hprompted hstep
    obtain ⟨m, hrepresents, _⟩ :=
      (takeNotes_invariant accounted_happen (accounted_of_starts hstart) hpast).represents
    exact prompted_happen hpast (masked_run hstart hpast) hrepresents.wellFormed
      (allTold_run hstart hpast) hprompted hstep

theorem Sought.lt_pieceCount (hstart : Starts ownId t connectionOptions policy start)
    (h : Sought start past index) : index < start.pieceCount := by
  obtain ⟨earlier, later, time, event, before, after, rfl, hrun, hstep, number, coins, rfl, _,
    hreserved, _⟩ := h.solicited
  have hrun' := run?_append_singleton hrun hstep
  obtain ⟨m, hrepresents, _⟩ :=
    (takeNotes_invariant accounted_happen (accounted_of_starts hstart) hrun').represents
  rw [hrepresents.isReserved_eq, Finmap.lookup_isSome] at hreserved
  have hindex := hrepresents.lt_of_mem hreserved
  rwa [pieceCount, (constant_run hrun').1] at hindex

end Session

end TorrentCore
