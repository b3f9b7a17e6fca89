import Mathlib.Data.List.Induction
import TorrentCore.Proofs.Connection.Telling

/-!
# What a connection makes of what it hears

Of its peer a connection knows which pieces it has told of, whether it has told of any, and whether
it chokes. This impression is made by the messages that the reader takes, one after the other, and
by nothing else. So when frames come over a link in the order in which they were sent, what the far
end makes of them can be told from the messages that were sent: it is the impression of the first so
many of them, and of all of them when nothing is under way any more.
-/

namespace TorrentCore

structure Impression where
  pieces : Bitfield
  knowsPieces : Bool
  amChoked : Bool

namespace Impression

def fresh (pieceCount : Nat) : Impression := ⟨.empty pieceCount, false, true⟩

/-- What a message adds. A piece that does not exist is passed over, and so is a set that does not
fit. -/
def hear (i : Impression) : Message → Impression
  | .choke => { i with amChoked := true }
  | .unchoke => { i with amChoked := false }
  | .has index => match i.pieces.mark index.toNat with
    | .ok (_, pieces) => { i with pieces := pieces, knowsPieces := true }
    | .error _ => i
  | .bitfield bits => match i.pieces.overwrite bits with
    | .ok pieces => { i with pieces := pieces, knowsPieces := true }
    | .error _ => i
  | _ => i

def ofMessages (pieceCount : Nat) (messages : List Message) : Impression :=
  messages.foldl hear (fresh pieceCount)

variable {i : Impression} {pieceCount index : Nat} {m : Message} {messages script : List Message}

@[simp] theorem ofMessages_append (pieceCount : Nat) (messages : List Message) (m : Message) :
    ofMessages pieceCount (messages ++ [m]) = (ofMessages pieceCount messages).hear m := by
  rw [ofMessages, List.foldl_append]
  rfl

theorem ofMessages_script (h : WithKeepAlives messages script) :
    ofMessages pieceCount script = ofMessages pieceCount messages := by
  unfold ofMessages
  generalize fresh pieceCount = i
  induction h generalizing i with
  | nil => rfl
  | message m _ ih => exact ih (i.hear m)
  | keepAlive _ ih => exact ih i

/-! ### Pieces -/

/-- A record of all pieces, of which nothing is recorded without its being known that the peer has
told of it. -/
structure Fits (i : Impression) (pieceCount : Nat) : Prop where
  wellFormed : i.pieces.WellFormed
  pieceCount_eq : i.pieces.pieceCount = pieceCount
  knows : ∀ index, i.pieces.contains index = true → i.knowsPieces = true

theorem fits_fresh (pieceCount : Nat) : (fresh pieceCount).Fits pieceCount := by
  refine ⟨Bitfield.wellFormed_empty pieceCount, rfl, fun index hindex => ?_⟩
  rw [fresh, Bitfield.contains_empty] at hindex
  cases hindex

theorem Fits.hear (h : i.Fits pieceCount) (m : Message) : (i.hear m).Fits pieceCount := by
  cases m with
  | has index =>
      rw [Impression.hear]
      split
      · next new pieces hmark =>
        obtain ⟨_, _, rfl⟩ := Bitfield.mark_eq_ok_iff.mp hmark
        exact ⟨h.wellFormed.insert _, h.pieceCount_eq, fun _ _ => rfl⟩
      · exact h
  | bitfield bits =>
      rw [Impression.hear]
      split
      · next pieces htaken =>
        obtain ⟨hwell, hcount⟩ := Bitfield.wellFormed_overwrite htaken
        exact ⟨hwell, hcount.trans h.pieceCount_eq, fun _ _ => rfl⟩
      · exact h
  | _ => exact ⟨h.wellFormed, h.pieceCount_eq, h.knows⟩

theorem fits_ofMessages (pieceCount : Nat) (messages : List Message) :
    (ofMessages pieceCount messages).Fits pieceCount := by
  unfold ofMessages
  have hstart := fits_fresh pieceCount
  revert hstart
  generalize fresh pieceCount = i
  intro hstart
  induction messages generalizing i with
  | nil => exact hstart
  | cons m messages ih => exact ih (i.hear m) (hstart.hear m)

theorem contains_hear_has (h : i.Fits pieceCount) (hindex : index < pieceCount)
    (hword : pieceCount ≤ 4294967296) (other : Nat) :
    (i.hear (.has (UInt32.ofNat index))).pieces.contains other
      = (i.pieces.contains other || decide (other = index)) := by
  have hlt : index < i.pieces.pieceCount := h.pieceCount_eq ▸ hindex
  have htoNat : (UInt32.ofNat index).toNat = index :=
    UInt32.toNat_ofNat_of_lt' (Nat.lt_of_lt_of_le hindex hword)
  rw [hear, htoNat, Bitfield.mark_eq_ok_iff.mpr ⟨hlt, rfl, rfl⟩]
  exact Bitfield.contains_insert h.wellFormed hlt other

theorem pieces_hear_bitfield (h : i.Fits pieceCount) {f : Bitfield} (hwell : f.WellFormed)
    (htrimmed : f.Trimmed) (hcount : f.pieceCount = pieceCount) :
    (i.hear (.bitfield f.bytes)).pieces = f := by
  rw [hear, Bitfield.overwrite_bytes hwell htrimmed (hcount.trans h.pieceCount_eq.symm)]

theorem contains_hear (h : i.Fits pieceCount)
    (hcontains : (i.hear m).pieces.contains index = true) :
    i.pieces.contains index = true ∨ m.tellsOf index = true := by
  cases m with
  | has told =>
      rw [hear] at hcontains
      split at hcontains
      · next new pieces hmark =>
        obtain ⟨hlt, _, rfl⟩ := Bitfield.mark_eq_ok_iff.mp hmark
        simp only at hcontains
        rw [Bitfield.contains_insert h.wellFormed hlt, Bool.or_eq_true,
          decide_eq_true_eq] at hcontains
        refine hcontains.imp_right fun heq => ?_
        rw [heq]
        exact beq_self_eq_true _
      · exact Or.inl hcontains
  | bitfield bits =>
      rw [hear] at hcontains
      split at hcontains
      · next pieces htaken =>
        simp only at hcontains
        rw [Bitfield.contains_overwrite htaken, Bool.and_eq_true] at hcontains
        exact Or.inr hcontains.2
      · exact Or.inl hcontains
  | _ => exact Or.inl hcontains

theorem tellsOf_of_contains (h : (ofMessages pieceCount messages).pieces.contains index = true) :
    ∃ m ∈ messages, m.tellsOf index = true := by
  induction messages using List.reverseRecOn with
  | nil =>
      rw [ofMessages, List.foldl_nil, fresh, Bitfield.contains_empty] at h
      cases h
  | append_singleton messages m ih =>
      rw [ofMessages_append] at h
      rcases contains_hear (fits_ofMessages pieceCount messages) h with hbefore | htells
      · obtain ⟨m', hm', htells⟩ := ih hbefore
        exact ⟨m', List.mem_append_left _ hm', htells⟩
      · exact ⟨m, List.mem_append_right _ (List.mem_singleton.mpr rfl), htells⟩

/-! ### Choking -/

theorem amChoked_ofMessages (hnever : Message.choke ∉ messages) (hunchoke : .unchoke ∈ messages) :
    (ofMessages pieceCount messages).amChoked = false := by
  induction messages using List.reverseRecOn with
  | nil => cases hunchoke
  | append_singleton messages m ih =>
      rw [ofMessages_append]
      have hbefore : Message.choke ∉ messages := fun h => hnever (List.mem_append_left _ h)
      have hlast : m ≠ .choke := by
        rintro rfl
        exact hnever (List.mem_append_right _ (List.mem_singleton.mpr rfl))
      cases m with
      | choke => exact absurd rfl hlast
      | unchoke => rfl
      | has _ | bitfield _ =>
          have hold := ih hbefore (by simpa using hunchoke)
          rw [hear]
          split <;> exact hold
      | _ => exact ih hbefore (by simpa using hunchoke)

end Impression

/-! ### Frames that are read or not -/

namespace Message

/-- The frame of the message is well-formed. Whoever allows for its length reads it. -/
structure IsFramed (m : Message) : Prop where
  length_lt : m.body.length < 4294967296
  hasContent : m.HasContent

theorem isFramed_of_short {m : Message} (hbitfield : ∀ bits, m ≠ .bitfield bits)
    (hpiece : ∀ index offset block, m ≠ .piece index offset block) : m.IsFramed := by
  refine ⟨Nat.lt_of_le_of_lt (m := 13) ?_ (by decide), fun index offset => hpiece index offset []⟩
  cases m with
  | bitfield bits => exact absurd rfl (hbitfield bits)
  | piece index offset block => exact absurd rfl (hpiece index offset block)
  | _ => simp [body, kind?, payload]

theorem isFramed_keepAlive : keepAlive.IsFramed := isFramed_of_short nofun nofun

theorem isFramed_bitfield {bits : Bytes} (h : bits.length + 1 < 4294967296) :
    (bitfield bits).IsFramed := by
  refine ⟨?_, nofun⟩
  simp only [body, kind?, payload, Option.toList_some, List.length_append, List.length_singleton]
  omega

theorem isFramed_piece {index offset : UInt32} {block : Bytes} (hcontent : block ≠ [])
    (h : block.length + 9 < 4294967296) : (piece index offset block).IsFramed := by
  refine ⟨?_, fun _ _ heq => ?_⟩
  · simp only [body, kind?, payload, Option.toList_some, List.length_append, List.length_singleton,
      Bytes.length_ofWord]
    omega
  · cases heq
    exact hcontent rfl

/-- A block of nothing is complained of. -/
theorem decode_empty_piece {index offset limit : UInt32}
    (hlimit : (piece index offset []).lengthWord ≤ limit) (rest : Bytes) :
    decode ((piece index offset []).encode ++ rest) limit = .error (.wrongLength 9 10 7) := by
  have hshort : (piece index offset []).body.length < 4294967296 := by
    simp [body, kind?, payload]
  rw [encode_eq, List.append_assoc, decode_frame hlimit (toNat_lengthWord hshort).symm]
  rfl

/-- Of messages that fit their frames the first so many are read, and unless all of them are, the
rest is complained of. -/
theorem results_of_length_lt (limit : UInt32) {messages : List Message}
    (h : ∀ m ∈ messages, m.body.length < 4294967296) : ∃ taken e, taken <+: messages
      ∧ results limit (messages.flatMap encode) = taken.map .ok ++ [.error e]
      ∧ (e = .peerDisconnected → taken = messages) := by
  induction messages with
  | nil => exact ⟨[], .peerDisconnected, List.prefix_refl _, rfl, fun _ => rfl⟩
  | cons m messages ih =>
      have hm := h m List.mem_cons_self
      rw [List.flatMap_cons]
      by_cases hlimit : m.lengthWord ≤ limit
      · by_cases hcontent : m.HasContent
        · obtain ⟨taken, e, hprefix, hresults, hall⟩ :=
            ih fun m' hm' => h m' (List.mem_cons_of_mem _ hm')
          refine ⟨m :: taken, e, (List.prefix_cons_inj m).mpr hprefix, ?_, fun he => ?_⟩
          · rw [results_of_ok (decode_encode_append hm hlimit hcontent _), ← length_encode hm,
              List.drop_left, hresults]
            rfl
          · rw [hall he]
        · simp only [HasContent, not_forall, not_not] at hcontent
          obtain ⟨index, offset, rfl⟩ := hcontent
          refine ⟨[], .decode (.wrongLength 9 10 7), List.nil_prefix, ?_, nofun⟩
          exact results_of_error (decode_empty_piece hlimit _) nofun nofun
      · refine ⟨[], .decode (.tooLong m.lengthWord limit), List.nil_prefix, ?_, nofun⟩
        refine results_of_error (decode_of_frameLength_error ?_) nofun nofun
        rw [encode_eq, List.append_assoc, frameLength_ofWord_append,
          if_pos (UInt32.not_le.mp hlimit)]

end Message

namespace Endpoint

variable {e e' : Endpoint} {now : Nanoseconds} {limit : UInt32} {dispatched script : List Message}
  {come : Bytes}

theorem Incoming.dispatched_prefix_of_isFramed (h : e.Incoming limit dispatched come)
    (hcome : come <+: script.flatMap Message.encode) (hframed : ∀ m ∈ script, m.IsFramed) :
    dispatched <+: script := by
  obtain ⟨tail, htail⟩ := hcome
  obtain ⟨taken, cause, htaken, hall, _⟩ :=
    Message.results_of_length_lt limit fun m hm => (hframed m hm).length_lt
  rw [← htail, h.results_eq] at hall
  exact (prefix_of_results ⟨_, hall⟩).trans htaken

theorem Incoming.dispatched_eq_of_length_lt (h : e.Incoming limit dispatched come)
    (hcome : come = script.flatMap Message.encode)
    (hfits : ∀ m ∈ script, m.body.length < 4294967296)
    (hread : e.link.incoming.held = []) (hused : e.connection.buffer.pending = []) :
    dispatched = script := by
  obtain ⟨taken, cause, _, hall, hwhole⟩ := Message.results_of_length_lt limit hfits
  have hresults := h.results_eq []
  rw [List.append_nil, hread, hused, hcome, hall] at hresults
  obtain ⟨hmessages, hlast⟩ := List.append_inj' hresults rfl
  have hsame : taken = dispatched := (List.map_inj_right fun _ _ => Except.ok.inj).mp hmessages
  rw [← hsame]
  exact hwhole (Except.error.inj (List.singleton_inj.mp hlast))

/-! ### The impression of a connection -/

/-- What the connection knows of its peer. -/
def impression (e : Endpoint) : Impression :=
  ⟨e.connection.pieces, e.connection.knowsPieces, e.connection.amChoked⟩

theorem impression_setAmChoked (e : Endpoint) (value : Bool) :
    impression { e with connection := e.connection.setAmChoked now value }
      = { e.impression with amChoked := value } := by
  unfold Connection.setAmChoked
  split
  · next hsame =>
    rw [← hsame]
    rfl
  · rfl

theorem impression_setPeerInterested (e : Endpoint) (value : Bool) :
    impression { e with connection := e.connection.setPeerInterested now value }
      = e.impression := by
  unfold Connection.setPeerInterested
  split <;> rfl

theorem impression_apply {m : Message} (h : e.apply now m = .ok e') :
    e'.impression = e.impression.hear m := by
  cases m with
  | keepAlive | request _ | cancel _ | piece _ _ _ =>
      cases h
      rfl
  | choke | unchoke =>
      cases h
      exact impression_setAmChoked e _
  | interested | notInterested =>
      cases h
      exact impression_setPeerInterested e _
  | has index =>
      cases h
      rw [Impression.hear, show e.impression.pieces = e.connection.pieces from rfl, applyHave]
      cases e.connection.pieces.mark index.toNat with
      | error _ => rfl
      | ok marked =>
          obtain ⟨new, pieces⟩ := marked
          cases new <;> rfl
  | bitfield bits =>
      rw [apply, applyBitfield] at h
      rw [Impression.hear, show e.impression.pieces = e.connection.pieces from rfl]
      revert h
      cases e.connection.pieces.overwrite bits with
      | ok pieces =>
          intro h
          cases h
          rfl
      | error _ =>
          intro h
          cases h

theorem hear_of_apply_error {m : Message} {cause : Error} (h : e.apply now m = .error cause) :
    e.impression.hear m = e.impression := by
  cases m with
  | bitfield bits =>
      rw [apply, applyBitfield] at h
      rw [Impression.hear, show e.impression.pieces = e.connection.pieces from rfl]
      revert h
      cases e.connection.pieces.overwrite bits with
      | ok _ =>
          intro h
          cases h
      | error _ => exact fun _ => rfl
  | _ => cases h

theorem impression_receive (h : e.receive? now = some e') :
    e'.impression = e.dispatches?.toList.foldl Impression.hear e.impression := by
  unfold receive? at h
  simp only at h
  split at h
  · cases h
  next hrunning =>
  rw [Bool.not_eq_true', Bool.not_eq_false] at hrunning
  rw [dispatches?, if_pos hrunning]
  cases hphase : e.connection.reader with
  | decoding =>
      rw [hphase] at h
      simp only at h ⊢
      split at h
      · next m rest hfront =>
        rw [hfront]
        split at h
        · next happly =>
          cases h
          have hmade := impression_apply happly
          exact hmade
        · next happly =>
          cases h
          have hmade := hear_of_apply_error happly
          exact hmade.symm
      · next hfront =>
        rw [hfront]
        cases h
        rfl
      · next hfront =>
        rw [hfront]
        cases h
        rfl
  | reading _ | offeringBlock _ | offeringUpload _ =>
      -- Nothing is taken out of the buffer.
      rw [hphase] at h
      simp only at h
      repeat' split at h
      all_goals cases h
      all_goals rfl

/-! ### The far end of a link -/

/-- Nothing happens to what comes in, nor to what was made of it. -/
structure KeepsHearing (e e' : Endpoint) : Prop where
  buffer_eq : e'.connection.buffer = e.connection.buffer
  held_eq : e'.link.incoming.held = e.link.incoming.held
  options_eq : e'.connection.options = e.connection.options
  impression_eq : e'.impression = e.impression

theorem keepsHearing_finish (e : Endpoint) (result : Except Error Unit) :
    e.KeepsHearing (e.finish result) := ⟨rfl, rfl, rfl, rfl⟩

theorem keepsHearing_stop (h : e.stop? = some e') : e.KeepsHearing e' := by
  unfold stop? at h
  split at h
  · cases h
    exact e.keepsHearing_finish _
  · cases h

theorem keepsHearing_transmit (h : e.transmit? now = some e') : e.KeepsHearing e' := by
  unfold transmit? at h
  simp only at h
  repeat' split at h
  all_goals cases h
  all_goals exact ⟨rfl, rfl, rfl, rfl⟩

theorem keepsHearing_of_sent {late : Bool} {p : Parcel} (h : e.send now late p = .sent e') :
    e.KeepsHearing e' := by
  have hnoted : ∀ (c : Connection) (m : Message),
      (c.noteSent now m).buffer = c.buffer ∧ (c.noteSent now m).options = c.options
        ∧ (c.noteSent now m).pieces = c.pieces ∧ (c.noteSent now m).knowsPieces = c.knowsPieces
        ∧ (c.noteSent now m).amChoked = c.amChoked := by
    intro c m
    unfold Connection.noteSent Connection.setAmInterested Connection.setPeerChoked
    split
    · split <;> exact ⟨rfl, rfl, rfl, rfl, rfl⟩
    · split <;> exact ⟨rfl, rfl, rfl, rfl, rfl⟩
    · split <;> exact ⟨rfl, rfl, rfl, rfl, rfl⟩
    · split <;> exact ⟨rfl, rfl, rfl, rfl, rfl⟩
    · exact ⟨rfl, rfl, rfl, rfl, rfl⟩
  obtain ⟨queue, -, rfl⟩ := send_eq_sent h
  unfold accept
  split
  · next m _ =>
    obtain ⟨hbuffer, hoptions, hpieces, hknows, hchoked⟩ :=
      hnoted { e.connection with queue := queue } m
    refine ⟨hbuffer, rfl, hoptions, ?_⟩
    rw [impression, impression, hpieces, hknows, hchoked]
  · exact ⟨rfl, rfl, rfl, rfl⟩

/-- A connection to whose end of a link these bytes have come so far. Its reader has taken these
messages. Whatever else becomes of the connection does not matter. -/
inductive Listens (pieceCount : Nat) : Endpoint → List Message → Bytes → Prop
  /-- What came before the connection was made is on the link, or was read with the handshake. -/
  | fresh (e : Endpoint) (himpression : e.impression = .fresh pieceCount)
      (hready : e.connection.buffer.Ready e.connection.options.maxMessage) :
      Listens pieceCount e [] (e.connection.buffer.pending ++ e.link.incoming.held)
  | comes {e : Endpoint} {heard : List Message} {come : Bytes} (link : Link) (bytes : Bytes)
      (h : Listens pieceCount e heard come)
      (hheld : link.incoming.held = e.link.incoming.held ++ bytes) :
      Listens pieceCount { e with link := link } heard (come ++ bytes)
  | receives {e e' : Endpoint} {heard : List Message} {come : Bytes} {now : Nanoseconds}
      (h : Listens pieceCount e heard come) (hstep : e.receive? now = some e') :
      Listens pieceCount e' (heard ++ e.dispatches?.toList) come
  | apart {e e' : Endpoint} {heard : List Message} {come : Bytes}
      (h : Listens pieceCount e heard come) (hkeeps : e.KeepsHearing e') :
      Listens pieceCount e' heard come

theorem Incoming.of_keepsHearing (h : e.Incoming limit dispatched come)
    (hkeeps : e.KeepsHearing e') : e'.Incoming limit dispatched come := by
  refine ⟨hkeeps.options_eq ▸ h.limit_eq, hkeeps.buffer_eq ▸ h.ready, fun tail => ?_⟩
  rw [hkeeps.buffer_eq, hkeeps.held_eq]
  exact h.results_eq tail

variable {pieceCount : Nat} {heard : List Message}

theorem Listens.hears (h : Listens pieceCount e heard come) :
    e.Incoming e.connection.options.maxMessage heard come
      ∧ e.impression = .ofMessages pieceCount heard := by
  induction h with
  | fresh e himpression hready =>
      refine ⟨⟨rfl, hready, fun tail => ?_⟩, himpression⟩
      rw [List.append_assoc]
      rfl
  | comes link bytes _ hheld ih => exact ⟨ih.1.come hheld, ih.2⟩
  | @receives e e' heard come now _ hstep ih =>
      have hincoming := ih.1.receive hstep
      refine ⟨hincoming.limit_eq.symm ▸ hincoming, ?_⟩
      rw [impression_receive hstep, ih.2, Impression.ofMessages, Impression.ofMessages,
        List.foldl_append]
  | apart _ hkeeps ih =>
      exact ⟨hkeeps.options_eq.symm ▸ ih.1.of_keepsHearing hkeeps, hkeeps.impression_eq.trans ih.2⟩

theorem Listens.heard_prefix (h : Listens pieceCount e heard come)
    (hcome : come <+: script.flatMap Message.encode) (hframed : ∀ m ∈ script, m.IsFramed) :
    heard <+: script := h.hears.1.dispatched_prefix_of_isFramed hcome hframed

theorem Listens.heard_eq (h : Listens pieceCount e heard come)
    (hcome : come = script.flatMap Message.encode) (hframed : ∀ m ∈ script, m.IsFramed)
    (hread : e.link.incoming.held = []) (hused : e.connection.buffer.pending = []) :
    heard = script :=
  h.hears.1.dispatched_eq_of_length_lt hcome (fun m hm => (hframed m hm).length_lt) hread hused

end Endpoint

end TorrentCore
