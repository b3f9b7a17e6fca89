import TorrentCore.Proofs.Session.Turn

/-!
# Counts are counts of holders

The count of a piece is the number of connections that have not ended and whose peers have told of
it. The invariant is `Counted`, on the roll alone. A step of a connection changes one entry of the
roll, and what the other connections contribute to the counts stays what it was, so that the step
is checked for one connection against a fixed number of others. Counts are words: all this holds as
long as there are fewer connections than a word can count.
-/

namespace TorrentCore

def Standing.holds (st : Standing) (index : Nat) : Bool := !st.hasEnded && st.pieces.contains index

namespace Roll

def holds (r : Roll) (index number : Nat) : Bool :=
  (r.standing number).any fun st => st.holds index

def holders (r : Roll) (index : Nat) : Nat := r.numbers.countP (r.holds index)

/-- Every count is the number of holders. -/
structure Counted (pieceCount : Nat) (r : Roll) : Prop where
  length_counts : r.availability.counts.length = pieceCount
  nodup : r.numbers.Nodup
  mem_numbers : ∀ number st, r.standing number = some st → number ∈ r.numbers
  fits : ∀ number st, r.standing number = some st → r.availability.Fits st.pieces
  count_eq : ∀ index, (r.availability.get index).toNat = r.holders index

theorem standing_enter (r : Roll) (availability : Availability) (numbers : List Nat)
    (number : Nat) (st : Standing) (number' : Nat) :
    (r.enter availability numbers number st).standing number'
      = if number' = number then some st else r.standing number' := rfl

theorem holds_enter (r : Roll) (availability : Availability) (numbers : List Nat) (number : Nat)
    (st : Standing) (index : Nat) :
    (r.enter availability numbers number st).holds index number = st.holds index := by
  rw [holds, standing_enter, if_pos rfl, Option.any_some]

theorem countP_enter {numbers' : List Nat} {number : Nat} (h : number ∉ numbers') (r : Roll)
    (availability : Availability) (numbers : List Nat) (st : Standing) (index : Nat) :
    numbers'.countP ((r.enter availability numbers number st).holds index)
      = numbers'.countP (r.holds index) := by
  apply List.countP_congr
  intro number' hmem
  have hne : number' ≠ number := fun he => h (he ▸ hmem)
  rw [holds, standing_enter, if_neg hne]
  rfl

theorem holders_eq {r : Roll} {number : Nat} (hnumber : number ∈ r.numbers) (index : Nat) :
    r.holders index
      = (r.numbers.erase number).countP (r.holds index) + (r.holds index number).toNat := by
  rw [holders, (List.perm_cons_erase hnumber).countP_eq, List.countP_cons]
  cases r.holds index number <;> rfl

theorem succ_countP_erase_le {r : Roll} {number : Nat} (hnumber : number ∈ r.numbers)
    (p : Nat → Bool) : (r.numbers.erase number).countP p + 1 ≤ r.numbers.length := by
  have hle : (r.numbers.erase number).countP p ≤ (r.numbers.erase number).length :=
    List.countP_le_length
  rw [List.length_erase_of_mem hnumber] at hle
  have hpos := List.length_pos_of_mem hnumber
  omega

/-- An entry may change, or come in, if it is counted beside what the others hold. -/
theorem Counted.enter {pieceCount : Nat} {r : Roll} (h : Counted pieceCount r)
    {availability : Availability} {numbers : List Nat} {number : Nat} {st : Standing}
    (hlength : availability.counts.length = r.availability.counts.length)
    (hnodup : numbers.Nodup) (hnumber : number ∈ numbers) (hkept : ∀ n ∈ r.numbers, n ∈ numbers)
    (hfits : availability.Fits st.pieces)
    (hcount : ∀ index, (availability.get index).toNat
      = (numbers.erase number).countP (r.holds index) + (st.holds index).toNat) :
    Counted pieceCount (r.enter availability numbers number st) := by
  refine ⟨hlength.trans h.length_counts, hnodup, ?_, ?_, ?_⟩
  · intro number' st' hget
    rw [standing_enter] at hget
    split at hget
    · next heq => exact heq ▸ hnumber
    · exact hkept number' (h.mem_numbers number' st' hget)
  · intro number' st' hget
    rw [standing_enter] at hget
    split at hget
    · cases hget
      exact hfits
    · obtain ⟨hwell, hsize⟩ := h.fits number' st' hget
      exact ⟨hwell, hsize.trans hlength.symm⟩
  · intro index
    have hmem : number ∈ (r.enter availability numbers number st).numbers := hnumber
    rw [holders_eq hmem, holds_enter]
    show (availability.get index).toNat = (numbers.erase number).countP _ + _
    rw [countP_enter hnodup.not_mem_erase, hcount]

end Roll

namespace Session

open Roll Connection

theorem counted_endpoint {s : Session} {pieceCount number : Nat} {e : Endpoint}
    (hcounted : Counted pieceCount s.roll) (he : s.endpoint? number = some e) :
    e.Counted fun index => (s.roll.numbers.erase number).countP (s.roll.holds index) := by
  obtain ⟨hstanding, hhub⟩ := standing_of_endpoint? he
  refine ⟨?_, fun index => ?_⟩
  · rw [hhub]
    exact hcounted.fits number _ hstanding
  · have hsum := hcounted.count_eq index
    rw [holders_eq (hcounted.mem_numbers number _ hstanding), Roll.holds, hstanding] at hsum
    rw [hhub]
    exact hsum

theorem counted_putEndpoint {s : Session} {pieceCount number : Nat} {e e' : Endpoint}
    (hcounted : Counted pieceCount s.roll) (hroom : s.roll.numbers.length < 4294967296)
    (he : s.endpoint? number = some e) (hrecorded : e.Recorded e') :
    Counted pieceCount (s.putEndpoint number e').roll := by
  obtain ⟨hstanding, hhub⟩ := standing_of_endpoint? he
  have hnumber := hcounted.mem_numbers number _ hstanding
  have hbefore := counted_endpoint hcounted he
  obtain ⟨hafter, hsize⟩ := hbefore.of_recorded hrecorded fun index =>
    Nat.lt_of_le_of_lt (succ_countP_erase_le hnumber _) hroom
  have hlength : e'.hub.availability.counts.length = s.roll.availability.counts.length := by
    rw [← hafter.fits.2, hsize, hbefore.fits.2, hhub]
    rfl
  rw [roll_putEndpoint he]
  exact hcounted.enter hlength hcounted.nodup hnumber (fun _ h => h) hafter.fits hafter.count_eq

theorem counted_joined {s s' : Session} {pieceCount number : Nat} {m : Member}
    (hcounted : Counted pieceCount s.roll) (hfresh : s.members.get? number = none)
    (hbegins : Begins pieceCount m.connection) (hmembers : s'.members = s.members.insert number m)
    (hhub : s'.hub = s.hub) : Counted pieceCount s'.roll := by
  have hroll : s'.roll = s.roll.enter s.roll.availability (s.roll.numbers ++ [number]) number
      (standing m.connection) := by
    simp only [roll, enter, hmembers, hhub, Table.keys_insert hfresh, Table.get?_insert]
    congr 1
    funext number'
    split <;> rfl
  have hnumber : number ∉ s.roll.numbers := Table.get?_eq_none_iff.mp hfresh
  have hpieces : (standing m.connection).pieces = .empty pieceCount := hbegins.pieces_eq
  rw [hroll]
  refine hcounted.enter rfl ?_ ?_ ?_ ?_ ?_
  · rw [List.nodup_append]
    refine ⟨hcounted.nodup, List.nodup_cons.mpr ⟨List.not_mem_nil, List.nodup_nil⟩,
      fun a ha b hb he => ?_⟩
    rw [List.mem_singleton] at hb
    exact hnumber (hb ▸ he ▸ ha)
  · exact List.mem_append_right _ List.mem_cons_self
  · exact fun _ h => List.mem_append_left _ h
  · rw [hpieces]
    exact ⟨Bitfield.wellFormed_empty _, hcounted.length_counts.symm⟩
  · intro index
    rw [Standing.holds, hpieces, Bitfield.contains_empty, Bool.and_false,
      List.erase_append_right _ hnumber, List.erase_cons_head, List.append_nil]
    exact hcounted.count_eq index

/-! ### Runs -/

theorem numbers_happen {now : Nanoseconds} {s s' : Session} {event : Event}
    (h : s.happen? now event = some s') :
    s.roll.numbers.length ≤ s'.roll.numbers.length ∧ s'.pieceCount = s.pieceCount := by
  cases happen_cases h with
  | quiet s' houtline =>
      rw [roll_of_outline houtline, pieceCount, geometry_of_outline houtline]
      exact ⟨Nat.le_refl _, rfl⟩
  | connection number e e' he hrecorded =>
      rw [roll_putEndpoint he]
      exact ⟨Nat.le_refl _, rfl⟩
  | joined number m s' hfresh hbegins hmembers hhub hholdings =>
      refine ⟨?_, congrArg (fun h => h.geometry.pieceCount.toNat) hholdings⟩
      show s.members.keys.length ≤ s'.members.keys.length
      rw [hmembers, Table.keys_insert hfresh, List.length_append]
      exact Nat.le_add_right _ _
  | consumed s' hconsume =>
      obtain ⟨hroll, hgeometry⟩ := roll_consume hconsume
      rw [hroll, pieceCount, hgeometry]
      exact ⟨Nat.le_refl _, rfl⟩
  | finished s' hfinish =>
      obtain ⟨hroll, hgeometry⟩ := roll_finishPiece hfinish
      rw [hroll, pieceCount, hgeometry]
      exact ⟨Nat.le_refl _, rfl⟩
  | shutdown =>
      rw [roll_of_outline (outline_shutdown s)]
      exact ⟨Nat.le_refl _, rfl⟩

theorem counted_happen {now : Nanoseconds} {s s' : Session} {event : Event}
    (hcounted : Counted s.pieceCount s.roll) (hroom : s.roll.numbers.length < 4294967296)
    (h : s.happen? now event = some s') : Counted s'.pieceCount s'.roll := by
  rw [(numbers_happen h).2]
  cases happen_cases h with
  | quiet s' houtline =>
      rw [roll_of_outline houtline]
      exact hcounted
  | connection number e e' he hrecorded => exact counted_putEndpoint hcounted hroom he hrecorded
  | joined number m s' hfresh hbegins hmembers hhub hholdings =>
      exact counted_joined hcounted hfresh hbegins hmembers hhub
  | consumed s' hconsume =>
      rw [(roll_consume hconsume).1]
      exact hcounted
  | finished s' hfinish =>
      rw [(roll_finishPiece hfinish).1]
      exact hcounted
  | shutdown =>
      rw [roll_of_outline (outline_shutdown s)]
      exact hcounted

theorem counted_run {events : List (Nanoseconds × Event)} {s s' : Session}
    (hcounted : Counted s.pieceCount s.roll) (hrun : run? events s = some s')
    (hroom : s'.roll.numbers.length < 4294967296) : Counted s'.pieceCount s'.roll := by
  refine run_invariant (P := fun r => r.roll.numbers.length < 4294967296 →
    Counted r.pieceCount r.roll) ?_ (fun _ => hcounted) hrun hroom
  intro now r event r' hbefore hstep hroom'
  have hroom := Nat.lt_of_le_of_lt (numbers_happen hstep).1 hroom'
  exact counted_happen (hbefore hroom) hroom hstep

theorem counted_of_made {t : TorrentSource} {s : Session} (h : s.Made t) :
    Counted s.pieceCount s.roll := by
  have hroll : s.roll = ⟨.zero s.pieceCount, [], fun _ => none⟩ := by
    rw [roll, h.availability_eq, h.members_eq]
    rfl
  rw [hroll]
  refine ⟨List.length_replicate, List.nodup_nil, fun _ _ hget => (by cases hget),
    fun _ _ hget => (by cases hget), fun index => ?_⟩
  simp only [Availability.get, Availability.zero, List.getD_eq_getElem?_getD,
    List.getElem?_replicate]
  split <;> rfl

theorem counted_of_starts {ownId : Identifier} {t : TorrentSource}
    {connectionOptions : ConnectionOptions} {policy : ReservationPolicy} {s : Session}
    (h : Starts ownId t connectionOptions policy s) : Counted s.pieceCount s.roll := by
  obtain ⟨made, owned, hmake, rfl⟩ := h.exists_make
  have hcounted := counted_of_made (made_of_make hmake)
  exact hcounted

/-! ### What the counts say -/

theorem toNat_get_eq {s : Session} (hcounted : Counted s.pieceCount s.roll) (index : Nat) :
    (s.hub.availability.get index).toNat
      = s.members.values.countP fun m => m.connection.holds index := by
  rw [Table.countP_values hcounted.nodup]
  refine (hcounted.count_eq index).trans (List.countP_congr fun number _ => ?_)
  rw [Roll.holds, roll, Option.any_map]
  exact Iff.rfl

/-- Taking the pieces of a live connection out of the counts lowers no count of zero. -/
theorem toNat_get_remove_add {s : Session} (hcounted : Counted s.pieceCount s.roll) {number : Nat}
    {m : Member} (hm : s.members.get? number = some m) (hlive : m.connection.hasEnded = false)
    (index : Nat) : ((s.hub.availability.remove m.connection.pieces).get index).toNat
        + (m.connection.pieces.contains index).toNat = (s.hub.availability.get index).toNat := by
  have hstanding : s.roll.standing number = some (standing m.connection) := by
    show (s.members.get? number).map (fun m => standing m.connection) = _
    rw [hm]
    rfl
  have hholders := (hcounted.count_eq index).trans
    (holders_eq (hcounted.mem_numbers number _ hstanding) index)
  rw [Roll.holds, hstanding, Option.any_some, Standing.holds, standing, hlive] at hholders
  have hsum : (s.hub.availability.get index).toNat
      = _ + (m.connection.pieces.contains index).toNat := hholders
  have hremoved : ((s.hub.availability.remove m.connection.pieces).get index).toNat
      = (s.hub.availability.get index).toNat - (m.connection.pieces.contains index).toNat :=
    Availability.toNat_get_remove (hcounted.fits number _ hstanding) index
  omega

/-- A set that does not fit ends the connection, and nothing was counted for it before. -/
theorem receive_rejected {s : Session} (now : Nanoseconds) {number : Nat} {m : Member}
    {bits : Bytes}
    {rest : ReadBuffer} {cause : Error} (hm : s.members.get? number = some m)
    (hrunning : m.connection.isRunning = true) (hreader : m.connection.reader = .decoding)
    (hmessage : m.connection.buffer.message m.connection.options.maxMessage
      = .item (.bitfield bits) rest)
    (hrejected : m.connection.pieces.overwrite bits = .error cause) :
    ∃ s' m', s.act? now (.receive number) = some s' ∧ s'.members.get? number = some m'
      ∧ m'.connection.status = .ended (.error cause)
      ∧ m'.connection.pieces = m.connection.pieces
      ∧ s'.hub.availability = s.hub.availability.remove m.connection.pieces := by
  have he : s.endpoint? number = some ⟨m.connection, s.hub, m.link⟩ := by
    rw [endpoint?, hm]
    rfl
  let e : Endpoint :=
    ⟨{ m.connection with buffer := rest, lastReceived := now, reader := .decoding }, s.hub, m.link⟩
  have hstep : Endpoint.receive? now ⟨m.connection, s.hub, m.link⟩
      = some (e.finish (.error cause)) := by
    rw [Endpoint.receive?]
    simp only [hrunning, hreader, hmessage, Bool.not_true, Endpoint.apply, Endpoint.applyBitfield,
      hrejected]
    rw [if_neg Bool.false_ne_true]
  refine ⟨s.putEndpoint number (e.finish (.error cause)),
    { m with
      connection := (e.finish (.error cause)).connection
      link := (e.finish (.error cause)).link }, ?_, ?_, rfl, rfl, rfl⟩
  · rw [act?, connectionStep?, he]
    simp only
    rw [hstep]
    rfl
  · rw [putEndpoint, Table.get?_modify, if_pos rfl, hm]
    rfl

/-- The count of a piece is the number of connections that have not ended and whose peers have told
of it, in every session that can be reached with fewer connections than a word counts. So no count
of zero is lowered when the pieces of a connection go, a set that does not fit changes nothing but
that its connection ends, and once all connections have ended nothing is counted. -/
theorem availability_eq_holders {ownId : Identifier} {t : TorrentSource}
    {connectionOptions : ConnectionOptions} {policy : ReservationPolicy} {start s : Session}
    {events : List (Nanoseconds × Event)} (hstart : Starts ownId t connectionOptions policy start)
    (hrun : run? events start = some s) (hfew : s.members.size < 4294967296) :
    (∀ index, (s.hub.availability.get index).toNat = s.members.values.countP fun m =>
        !m.connection.hasEnded && m.connection.pieces.contains index)
      ∧ (∀ number m, s.members.get? number = some m → m.connection.hasEnded = false → ∀ index,
        ((s.hub.availability.remove m.connection.pieces).get index).toNat
          + (m.connection.pieces.contains index).toNat = (s.hub.availability.get index).toNat)
      ∧ (∀ now number m bits rest cause, s.members.get? number = some m →
        m.connection.isRunning = true → m.connection.reader = .decoding →
        m.connection.buffer.message m.connection.options.maxMessage
          = .item (.bitfield bits) rest →
        m.connection.pieces.overwrite bits = .error cause →
        ∃ s' m', s.act? now (.receive number) = some s' ∧ s'.members.get? number = some m'
          ∧ m'.connection.status = .ended (.error cause)
          ∧ m'.connection.pieces = m.connection.pieces
          ∧ s'.hub.availability = s.hub.availability.remove m.connection.pieces)
      ∧ ((∀ m ∈ s.members.values, m.connection.hasEnded = true) →
        ∀ index, s.hub.availability.get index = 0) := by
  have hroom : s.roll.numbers.length < 4294967296 := by
    show s.members.keys.length < 4294967296
    rw [Table.keys, List.length_map]
    exact hfew
  have hcounted := counted_run (counted_of_starts hstart) hrun hroom
  refine ⟨toNat_get_eq hcounted, fun number m hm hlive => toNat_get_remove_add hcounted hm hlive,
    fun now number m bits rest cause => receive_rejected now, fun hended index => ?_⟩
  have hcount := toNat_get_eq hcounted index
  rw [List.countP_eq_zero.mpr] at hcount
  · exact UInt32.toNat_inj.mp hcount
  · intro m hm
    rw [Connection.holds, hended m hm]
    exact Bool.false_ne_true

/-- One peer tells of a piece twice, of one that does not exist, and then of another set. One tells
of both pieces and then sends a set with bits that belong to no piece. One tells of both pieces. -/
def tellings : List (Nanoseconds × Event) :=
  let reads (number steps : Nat) : List Event := List.replicate steps (.own (.receive number))
  ([joins 0 [.has 1, .has 1, .has 9, .bitfield [0x80]], joins 1 [.bitfield [0xc0], .bitfield [0xff]],
    joins 2 [.bitfield [0xc0]]] ++ reads 0 6 ++ reads 1 4 ++ reads 2 3).map fun event => (0, event)

theorem availability_eq_holders_tellings : ∃ start s, Starts .zero twoPieces {} {} start
    ∧ run? tellings start = some s ∧ s.members.size < 4294967296
    ∧ s.hub.availability.counts = [2, 1]
    ∧ ∀ index, (s.hub.availability.get index).toNat = s.members.values.countP fun m =>
      !m.connection.hasEnded && m.connection.pieces.contains index := by
  have hdone : (after? .zero twoPieces {} {} tellings).any (fun s =>
      decide (s.members.size < 4294967296 ∧ s.hub.availability.counts = [2, 1])) = true := by
    decide +kernel
  obtain ⟨start, s, hstart, hrun, htest⟩ := exists_run_of_after? hdone
  obtain ⟨hfew, hcounts⟩ := of_decide_eq_true htest
  exact ⟨start, s, hstart, hrun, hfew, hcounts, (availability_eq_holders hstart hrun hfew).1⟩

end Session

end TorrentCore
