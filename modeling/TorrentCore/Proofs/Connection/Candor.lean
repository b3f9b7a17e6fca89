import TorrentCore.Proofs.Connection.Hearing

/-!
# Telling the truth

What is said over a connection is candid if no piece is told of that is not owned, and if nothing
that was told is taken back: a bit field, which takes the place of all that was told before, tells
of all of it again. Whoever has heard the first so many of candid messages has recorded the pieces
that they tell of, and no others.
-/

namespace TorrentCore

/-- One of these messages tells of the piece. -/
def TellOf (messages : List Message) (index : Nat) : Prop := ∃ m ∈ messages, m.tellsOf index = true

variable {messages said script : List Message} {m : Message} {index : Nat}

theorem tellOf_append :
    TellOf (messages ++ said) index ↔ TellOf messages index ∨ TellOf said index := by
  simp only [TellOf, List.mem_append, or_and_right, exists_or]

theorem tellOf_singleton : TellOf [m] index ↔ m.tellsOf index = true := by
  simp only [TellOf, List.mem_singleton, exists_eq_left]

theorem not_tellOf_nil (index : Nat) : ¬ TellOf [] index := fun ⟨_, hm, _⟩ =>
  absurd hm List.not_mem_nil

theorem tellsOf_has (hindex : index < 4294967296) (other : Nat) :
    (Message.has (UInt32.ofNat index)).tellsOf other = decide (other = index) := by
  rw [Message.tellsOf, UInt32.toNat_ofNat_of_lt' hindex, Bool.eq_iff_iff, beq_iff_eq,
    decide_eq_true_eq]
  exact eq_comm

theorem tellsOf_bitfield {f : Bitfield} (hindex : index < f.pieceCount) :
    (Message.bitfield f.bytes).tellsOf index = f.contains index := by
  rw [Bitfield.contains_eq, decide_eq_true hindex, Bool.true_and]
  rfl

theorem TellOf.of_prefix (h : TellOf said index) (hsaid : said <+: messages) :
    TellOf messages index := by
  obtain ⟨m, hm, htells⟩ := h
  exact ⟨m, hsaid.subset hm, htells⟩

theorem tellOf_script (h : WithKeepAlives messages script) :
    TellOf script index ↔ TellOf messages index := by
  unfold TellOf
  induction h with
  | nil => rfl
  | message m _ ih => simp only [List.mem_cons, exists_eq_or_imp, ih]
  | keepAlive _ ih =>
      have hnothing : Message.keepAlive.tellsOf index = false := rfl
      simp only [List.mem_cons, exists_eq_or_imp, hnothing, Bool.false_eq_true, false_or, ih]

/-- What was heard of a script is what was said, with keep-alives, or the first part of it. -/
theorem WithKeepAlives.of_prefix (h : WithKeepAlives messages script) {heard : List Message}
    (hheard : heard <+: script) : ∃ said, said <+: messages ∧ WithKeepAlives said heard := by
  induction h generalizing heard with
  | nil =>
      rw [List.prefix_nil.mp hheard]
      exact ⟨[], List.prefix_refl _, .nil⟩
  | message m _ ih =>
      rcases List.prefix_cons_iff.mp hheard with rfl | ⟨rest, rfl, hrest⟩
      · exact ⟨[], List.nil_prefix, .nil⟩
      · obtain ⟨said, hsaid, hkeeps⟩ := ih hrest
        exact ⟨m :: said, (List.prefix_cons_inj m).mpr hsaid, .message m hkeeps⟩
  | keepAlive _ ih =>
      rcases List.prefix_cons_iff.mp hheard with rfl | ⟨rest, rfl, hrest⟩
      · exact ⟨[], List.nil_prefix, .nil⟩
      · obtain ⟨said, hsaid, hkeeps⟩ := ih hrest
        exact ⟨said, hsaid, .keepAlive hkeeps⟩

/-- Messages in which only what is owned is told of, and in which nothing is taken back. -/
structure Candid (owned : Bitfield) (messages : List Message) : Prop where
  framed : ∀ m ∈ messages, m.IsFramed
  truthful : ∀ index < owned.pieceCount, TellOf messages index → owned.contains index = true
  keeps : ∀ said, said <+: messages → ∀ index < owned.pieceCount, TellOf said index →
    (Impression.ofMessages owned.pieceCount said).pieces.contains index = true
  unchoking : .choke ∉ messages

namespace Candid

variable {owned owned' : Bitfield}

theorem nil (owned : Bitfield) : Candid owned [] := by
  refine ⟨fun m hm => absurd hm List.not_mem_nil, fun index _ h => absurd h (not_tellOf_nil index),
    fun said hsaid index _ h => ?_, List.not_mem_nil⟩
  rw [List.prefix_nil.mp hsaid] at h
  exact absurd h (not_tellOf_nil index)

theorem mono (h : Candid owned messages) (hcount : owned'.pieceCount = owned.pieceCount)
    (hgrows : ∀ index, owned.contains index = true → owned'.contains index = true) :
    Candid owned' messages :=
  ⟨h.framed, fun index hindex htold => hgrows index (h.truthful index (hcount ▸ hindex) htold),
    hcount ▸ h.keeps, h.unchoking⟩

theorem of_prefix (h : Candid owned messages) (hsaid : said <+: messages) : Candid owned said :=
  ⟨fun m hm => h.framed m (hsaid.subset hm),
    fun index hindex htold => h.truthful index hindex (htold.of_prefix hsaid),
    fun first hfirst => h.keeps first (hfirst.trans hsaid), fun hm => h.unchoking (hsaid.subset hm)⟩

theorem append (h : Candid owned messages) (hframed : m.IsFramed) (hchoke : m ≠ .choke)
    (htrue : ∀ index < owned.pieceCount, m.tellsOf index = true → owned.contains index = true)
    (hkeeps : ∀ index < owned.pieceCount, TellOf (messages ++ [m]) index →
      (Impression.ofMessages owned.pieceCount (messages ++ [m])).pieces.contains index = true) :
    Candid owned (messages ++ [m]) := by
  refine ⟨fun m' hm' => ?_, fun index hindex htold => ?_, fun said hsaid index hindex htold => ?_,
    fun hm' => ?_⟩
  · rcases List.mem_append.mp hm' with hold | hnew
    · exact h.framed m' hold
    · exact List.mem_singleton.mp hnew ▸ hframed
  · rcases tellOf_append.mp htold with hold | hnew
    · exact h.truthful index hindex hold
    · exact htrue index hindex (tellOf_singleton.mp hnew)
  · rcases List.prefix_concat_iff.mp hsaid with rfl | hbefore
    · exact hkeeps index hindex htold
    · exact h.keeps said hbefore index hindex htold
  · rcases List.mem_append.mp hm' with hold | hnew
    · exact h.unchoking hold
    · exact hchoke (List.mem_singleton.mp hnew).symm

theorem append_silent (h : Candid owned messages) (hframed : m.IsFramed) (hchoke : m ≠ .choke)
    (hsilent : ∀ i : Impression, (i.hear m).pieces = i.pieces)
    (hnothing : ∀ index, m.tellsOf index = false) :
    Candid owned (messages ++ [m]) := by
  refine h.append hframed hchoke (fun index _ htells => ?_) fun index hindex htold => ?_
  · cases (hnothing index).symm.trans htells
  · rw [Impression.ofMessages_append, hsilent]
    refine h.keeps messages (List.prefix_refl _) index hindex ?_
    refine (tellOf_append.mp htold).resolve_right fun htells => ?_
    cases (hnothing index).symm.trans (tellOf_singleton.mp htells)

theorem append_has (h : Candid owned messages) (hindex : index < owned.pieceCount)
    (hword : owned.pieceCount ≤ 4294967296) (howned : owned.contains index = true) :
    Candid owned (messages ++ [.has (UInt32.ofNat index)]) := by
  have htells := tellsOf_has (Nat.lt_of_lt_of_le hindex hword)
  refine h.append (Message.isFramed_of_short nofun nofun) nofun (fun other _ htold => ?_)
    fun other hother htold => ?_
  · rw [htells, decide_eq_true_eq] at htold
    exact htold ▸ howned
  · rw [Impression.ofMessages_append,
      Impression.contains_hear_has (Impression.fits_ofMessages _ _) hindex hword, Bool.or_eq_true]
    rw [tellOf_append, tellOf_singleton, htells] at htold
    exact htold.imp_left (h.keeps messages (List.prefix_refl _) other hother)

theorem append_bitfield (h : Candid owned messages) {known : Bitfield} (hwell : known.WellFormed)
    (htrimmed : known.Trimmed) (hcount : known.pieceCount = owned.pieceCount)
    (hframed : (Message.bitfield known.bytes).IsFramed)
    (htold : ∀ index < owned.pieceCount, TellOf messages index → known.contains index = true)
    (hknown : ∀ index, known.contains index = true → owned.contains index = true) :
    Candid owned (messages ++ [.bitfield known.bytes]) := by
  have htells : ∀ index < owned.pieceCount,
      (Message.bitfield known.bytes).tellsOf index = known.contains index := fun index hindex =>
    tellsOf_bitfield (hcount ▸ hindex)
  refine h.append hframed nofun (fun index hindex htells' => ?_) fun index hindex htold' => ?_
  · exact hknown index (htells index hindex ▸ htells')
  · rw [Impression.ofMessages_append,
      Impression.pieces_hear_bitfield (Impression.fits_ofMessages _ _) hwell htrimmed hcount]
    rcases tellOf_append.mp htold' with hold | hnew
    · exact htold index hindex hold
    · exact htells index hindex ▸ tellOf_singleton.mp hnew

/-- Whoever has heard candid messages has recorded what they tell of. -/
theorem contains_iff (h : Candid owned messages) (hindex : index < owned.pieceCount) :
    (Impression.ofMessages owned.pieceCount messages).pieces.contains index = true
      ↔ TellOf messages index :=
  ⟨Impression.tellsOf_of_contains, h.keeps messages (List.prefix_refl _) index hindex⟩

end Candid

end TorrentCore
