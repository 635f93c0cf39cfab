import OpenVpn.Reliable

/-! The send side of the reliability layer as `ssl.c` drives it: packets are numbered by
`reliable_mark_active_outgoing` in buffers granted by `reliable_get_buf_output_sequenced`, freed by
acknowledgements in `reliable_send_purge`, and resent by `reliable_send`. The age of an active
entry is `rel->packet_id - e->packet_id` modulo `2^32`. In every run the active entries have
distinct ids whose ages lie in `1 .. size`; the oldest one, found with `reliable_pid_min`, fixes
`reliable_get_num_output_sequenced_available`, and that many packets can be written one after the
other by the loop of `write_outgoing_tls_ciphertext`, across the wrap of `rel->packet_id` too. -/

namespace OpenVpn

/-- `buf_copy_n` of `data` into the buffer of entry `i`. -/
def reliableEntryWrite (rel : Reliable) (i : Nat) (data : List UInt8) : Reliable :=
  { rel with entries := rel.entries.modify i fun e => { e with payload := e.payload ++ data } }

/-- `reliable_get_buf_output_sequenced`, `data` written into the buffer and
`reliable_mark_active_outgoing`, as `session_move_pre_start` and `write_outgoing_tls_ciphertext`
call them: the state and the entry used; `none` when no buffer is granted. -/
def reliableOutput (rel : Reliable) (opcode : Int) (data : List UInt8) : Option (Reliable × Nat) :=
  match reliableGetBufOutputSequenced rel with
  | none => none
  | some (rel, i) => (reliableMarkActiveOutgoing (reliableEntryWrite rel i data) i opcode).map fun rel => (rel, i)

/-- The loop of `write_outgoing_tls_ciphertext` over the packets the TLS ciphertext is split into,
each with its opcode; `none` when its `ASSERT(buf)` fires. -/
def writeOutgoingTlsCiphertextLoop (rel : Reliable) : List (Int × List UInt8) → Option Reliable
  | [] => some rel
  | (opcode, chunk) :: rest =>
      match reliableOutput rel opcode chunk with
      | none => none
      | some (rel, _) => writeOutgoingTlsCiphertextLoop rel rest

/-! ## Ages of packet ids -/

theorem toNat_subtractPid_self (p : UInt32) : (subtractPid p p).toNat = 0 := by
  simp [subtractPid]

theorem toNat_subtractPid_succ_self (p : UInt32) : (subtractPid (p + 1) p).toNat = 1 := by
  simp [subtractPid]

/-- Numbering one more packet makes every other id one older. -/
theorem toNat_subtractPid_succ {p x : UInt32} (h : (subtractPid p x).toNat + 1 < 2 ^ 32) :
    (subtractPid (p + 1) x).toNat = (subtractPid p x).toNat + 1 := by
  have hp := p.toNat_lt
  have hx := x.toNat_lt
  rw [toNat_subtractPid] at h
  rw [toNat_subtractPid, toNat_subtractPid, UInt32.toNat_add, UInt32.toNat_one]
  omega

theorem eq_of_toNat_subtractPid_eq {p a b : UInt32}
    (h : (subtractPid p a).toNat = (subtractPid p b).toNat) : a = b := by
  have hp := p.toNat_lt
  have ha := a.toNat_lt
  have hb := b.toNat_lt
  rw [toNat_subtractPid, toNat_subtractPid] at h
  exact UInt32.toNat_inj.mp (by omega)

/-- Between ids less than `2^31` old, `reliable_pid_min` picks the older one. -/
theorem reliablePidMin_iff_of_age {p a b : UInt32} (ha : (subtractPid p a).toNat < 2 ^ 31)
    (hb : (subtractPid p b).toNat < 2 ^ 31) :
    reliablePidMin a b = true ↔ (subtractPid p b).toNat < (subtractPid p a).toNat := by
  have hp := p.toNat_lt
  have ha' := a.toNat_lt
  have hb' := b.toNat_lt
  rw [reliablePidMin_iff]
  rw [toNat_subtractPid] at ha hb ⊢
  rw [toNat_subtractPid]
  omega

theorem reliablePidInRange1_iff (test base extent : UInt32) :
    reliablePidInRange1 test base extent = true ↔ (subtractPid test base).toNat < extent.toNat := by
  simp [reliablePidInRange1, UInt32.lt_iff_toNat_lt]

/-! ## The oldest active id -/

section MinActiveId

variable {p : UInt32}

theorem minActiveIdStep_of_inactive {e : ReliableEntry} (h : e.active = false) (acc : Option UInt32) :
    minActiveIdStep acc e = acc := by
  simp [minActiveIdStep, h]

theorem minActiveIdStep_none {e : ReliableEntry} (h : e.active = true) :
    minActiveIdStep none e = some e.packetId := by
  simp [minActiveIdStep, h]

theorem minActiveIdStep_some {e : ReliableEntry} (h : e.active = true) (m₀ : UInt32) :
    minActiveIdStep (some m₀) e = if reliablePidMin e.packetId m₀ then some e.packetId else some m₀ := by
  simp [minActiveIdStep, h]

/-- One entry of the loop: the minimum stays `none` only past free entries, and becomes the older
of the two ids otherwise. -/
theorem minActiveIdStep_spec (acc : Option UInt32) (e : ReliableEntry)
    (he : e.active = true → (subtractPid p e.packetId).toNat < 2 ^ 31)
    (hacc : ∀ m, acc = some m → (subtractPid p m).toNat < 2 ^ 31) :
    (minActiveIdStep acc e = none ↔ acc = none ∧ e.active = false) ∧
    ∀ m, minActiveIdStep acc e = some m →
      (acc = some m ∨ e.active = true ∧ e.packetId = m) ∧
      (e.active = true → (subtractPid p e.packetId).toNat ≤ (subtractPid p m).toNat) ∧
      (∀ m₀, acc = some m₀ → (subtractPid p m₀).toNat ≤ (subtractPid p m).toNat) := by
  cases hact : e.active with
  | false =>
      rw [minActiveIdStep_of_inactive hact]
      refine ⟨by simp, fun m hm => ⟨Or.inl hm, fun h => absurd h (by simp), fun m₀ h₀ => ?_⟩⟩
      rw [hm, Option.some.injEq] at h₀
      rw [h₀]
  | true =>
      cases acc with
      | none =>
          rw [minActiveIdStep_none hact]
          refine ⟨by simp, fun m hm => ?_⟩
          obtain rfl := Option.some.inj hm
          exact ⟨Or.inr ⟨rfl, rfl⟩, fun _ => le_rfl, fun m₀ h₀ => by cases h₀⟩
      | some m₀ =>
          have hmin := reliablePidMin_iff_of_age (he hact) (hacc m₀ rfl)
          rw [minActiveIdStep_some hact]
          by_cases hlt : reliablePidMin e.packetId m₀ = true
          · -- `e` is older: it becomes the minimum
            rw [if_pos hlt]
            refine ⟨by simp, fun m hm => ?_⟩
            obtain rfl := Option.some.inj hm
            refine ⟨Or.inr ⟨rfl, rfl⟩, fun _ => le_rfl, fun m₁ h₁ => ?_⟩
            obtain rfl := Option.some.inj h₁
            exact Nat.le_of_lt (hmin.mp hlt)
          · rw [if_neg hlt]
            refine ⟨by simp, fun m hm => ?_⟩
            obtain rfl := Option.some.inj hm
            refine ⟨Or.inl rfl, fun _ => Nat.le_of_not_lt fun h => hlt (hmin.mpr h), fun m₁ h₁ => ?_⟩
            obtain rfl := Option.some.inj h₁
            exact le_rfl

/-- The whole loop, from any accumulator. -/
theorem foldl_minActiveIdStep (l : List ReliableEntry) (acc : Option UInt32)
    (hl : ∀ e ∈ l, e.active = true → (subtractPid p e.packetId).toNat < 2 ^ 31)
    (hacc : ∀ m, acc = some m → (subtractPid p m).toNat < 2 ^ 31) :
    (l.foldl minActiveIdStep acc = none ↔ acc = none ∧ ∀ e ∈ l, e.active = false) ∧
    ∀ m, l.foldl minActiveIdStep acc = some m →
      (acc = some m ∨ ∃ e ∈ l, e.active = true ∧ e.packetId = m) ∧
      (∀ e ∈ l, e.active = true → (subtractPid p e.packetId).toNat ≤ (subtractPid p m).toNat) ∧
      (∀ m₀, acc = some m₀ → (subtractPid p m₀).toNat ≤ (subtractPid p m).toNat) := by
  induction l generalizing acc with
  | nil =>
      refine ⟨by simp, fun m hm => ⟨Or.inl hm, fun e he => absurd he List.not_mem_nil, fun m₀ h₀ => ?_⟩⟩
      rw [Option.some.inj (h₀.symm.trans hm)]
  | cons e l ih =>
      have hstep := minActiveIdStep_spec acc e (hl e List.mem_cons_self) hacc
      -- the accumulator after `e` is still an id less than `2^31` old
      have hacc' : ∀ m, minActiveIdStep acc e = some m → (subtractPid p m).toNat < 2 ^ 31 := by
        intro m hm
        rcases (hstep.2 m hm).1 with h | ⟨hact, rfl⟩
        · exact hacc m h
        · exact hl e List.mem_cons_self hact
      obtain ⟨hnone, hsome⟩ := ih (minActiveIdStep acc e) (fun x hx => hl x (List.mem_cons_of_mem e hx)) hacc'
      rw [List.foldl_cons]
      refine ⟨by rw [hnone, hstep.1]; simp [and_assoc], fun m hm => ?_⟩
      obtain ⟨hsrc, hle, hacc_le⟩ := hsome m hm
      refine ⟨?_, ?_, fun m₀ h₀ => ?_⟩
      · rcases hsrc with h | ⟨e', he', hact', rfl⟩
        · rcases (hstep.2 m h).1 with h' | ⟨hact, rfl⟩
          · exact Or.inl h'
          · exact Or.inr ⟨e, List.mem_cons_self, hact, rfl⟩
        · exact Or.inr ⟨e', List.mem_cons_of_mem e he', hact', rfl⟩
      · intro x hx hact
        rcases List.mem_cons.mp hx with hxe | hx
        · -- `e` itself: the accumulator after it is no younger than `e`
          rw [hxe] at hact ⊢
          cases hm₁ : minActiveIdStep acc e with
          | none => exact absurd (hstep.1.mp hm₁).2 (by simp [hact])
          | some m₁ => exact ((hstep.2 m₁ hm₁).2.1 hact).trans (hacc_le m₁ hm₁)
        · exact hle x hx hact
      · cases hm₁ : minActiveIdStep acc e with
        | none => exact absurd (hstep.1.mp hm₁).1 (by simp [h₀])
        | some m₁ => exact ((hstep.2 m₁ hm₁).2.2 m₀ h₀).trans (hacc_le m₁ hm₁)

/-- `minActiveId` finds an active id no younger than any other, when all are less than `2^31`
old. -/
theorem minActiveId_spec (entries : List ReliableEntry)
    (h : ∀ e ∈ entries, e.active = true → (subtractPid p e.packetId).toNat < 2 ^ 31) :
    (minActiveId entries = none ↔ ∀ e ∈ entries, e.active = false) ∧
    ∀ m, minActiveId entries = some m → (∃ e ∈ entries, e.active = true ∧ e.packetId = m) ∧
      ∀ e ∈ entries, e.active = true → (subtractPid p e.packetId).toNat ≤ (subtractPid p m).toNat := by
  obtain ⟨hnone, hsome⟩ := foldl_minActiveIdStep entries none h (fun m hm => by cases hm)
  refine ⟨by rw [minActiveId, hnone]; simp, fun m hm => ?_⟩
  obtain ⟨hsrc, hle, -⟩ := hsome m hm
  exact ⟨hsrc.resolve_left (by simp), hle⟩

end MinActiveId

/-! ## Granting and numbering a buffer -/

theorem reliableGetBufOutputSequenced_eq_some {rel rel₁ : Reliable} {i : Nat}
    (h : reliableGetBufOutputSequenced rel = some (rel₁, i)) :
    reliableGetBuf rel = some (rel₁, i) ∧
      ∀ m, minActiveId rel.entries = some m →
        reliablePidInRange1 rel.packetId m (UInt32.ofNat rel.size) = true := by
  unfold reliableGetBufOutputSequenced at h
  cases hm : minActiveId rel.entries with
  | none =>
      rw [hm] at h
      exact ⟨h, fun m hm' => by cases hm'⟩
  | some m₀ =>
      rw [hm] at h
      dsimp only at h
      split_ifs at h with hin
      exact ⟨h, fun m hm' => by cases hm'; exact hin⟩

/-- What one granted and numbered buffer changes: entry `i`, free before, now holds the packet
with the expected id prepended, and the expected id moves on. -/
theorem reliableOutput_eq_some {rel rel' : Reliable} {opcode : Int} {data : List UInt8} {i : Nat}
    (h : reliableOutput rel opcode data = some (rel', i)) :
    ∃ hi : i < rel.entries.length, rel.entries[i].active = false ∧
      (∀ m, minActiveId rel.entries = some m →
        reliablePidInRange1 rel.packetId m (UInt32.ofNat rel.size) = true) ∧
      rel'.packetId = rel.packetId + 1 ∧ rel'.entries.length = rel.entries.length ∧
      (∀ j (hj : j < rel'.entries.length) (hj' : j < rel.entries.length), i ≠ j →
        rel'.entries[j] = rel.entries[j]) ∧
      ∃ hi' : i < rel'.entries.length, rel'.entries[i].active = true ∧
        rel'.entries[i].packetId = rel.packetId ∧
        rel'.entries[i].payload = BigEndian.encode 4 rel.packetId.toNat ++ data := by
  unfold reliableOutput at h
  cases hget : reliableGetBufOutputSequenced rel with
  | none =>
      rw [hget] at h
      cases h
  | some r =>
      obtain ⟨rel₁, k⟩ := r
      rw [hget] at h
      obtain ⟨hbuf, hrange⟩ := reliableGetBufOutputSequenced_eq_some hget
      obtain ⟨hk, hfree, -, rfl⟩ := reliableGetBuf_eq_some hbuf
      unfold reliableMarkActiveOutgoing reliableEntryWrite at h
      simp only [Reliable.size, List.length_modify, hk, if_true, Option.map_some, Option.some.injEq,
        Prod.mk.injEq] at h
      obtain ⟨rfl, rfl⟩ := h
      refine ⟨hk, hfree, hrange, rfl, by simp, fun j _ _ hij => ?_, by simpa using hk, ?_⟩
      · simp only [List.getElem_modify_ne _ _ hij]
      · simp [List.getElem_modify_eq]

/-- A buffer is granted and numbered whenever there is a free entry and the oldest active id is
less than `size` old. -/
theorem reliableOutput_isSome {rel : Reliable} (hcan : reliableCanGet rel = true)
    (hrange : ∀ m, minActiveId rel.entries = some m →
      reliablePidInRange1 rel.packetId m (UInt32.ofNat rel.size) = true)
    (opcode : Int) (data : List UInt8) : ∃ rel' i, reliableOutput rel opcode data = some (rel', i) := by
  have hget : reliableGetBufOutputSequenced rel = reliableGetBuf rel := by
    unfold reliableGetBufOutputSequenced
    cases hm : minActiveId rel.entries with
    | none => rfl
    | some m => exact if_pos (hrange m hm)
  obtain ⟨rel₁, i, hbuf⟩ := reliableGetBuf_of_canGet hcan
  obtain ⟨hi, -, -, rfl⟩ := reliableGetBuf_eq_some hbuf
  unfold reliableOutput
  rw [hget, hbuf]
  simp [reliableMarkActiveOutgoing, reliableEntryWrite, Reliable.size, hi]

/-! ## Runs of the send side -/

/-- The send-side states reachable from `reliable_init`: buffers granted and numbered, optionally
deleted at once as `session_move_pre_start` does, acknowledgements, sends and rescheduling. -/
inductive ReliableSendReach : Reliable → Prop
  | init {n : Nat} {hold : Bool} {rel : Reliable} :
      reliableInit n hold = some rel → ReliableSendReach rel
  | output {rel rel' : Reliable} {opcode : Int} {data : List UInt8} {i : Nat} :
      ReliableSendReach rel → reliableOutput rel opcode data = some (rel', i) → ReliableSendReach rel'
  | outputDeleted {rel rel' rel'' : Reliable} {opcode : Int} {data : List UInt8} {i : Nat} :
      ReliableSendReach rel → reliableOutput rel opcode data = some (rel', i) →
      reliableMarkDeleted rel' i = some rel'' → ReliableSendReach rel''
  | purge {rel : Reliable} (acks : List UInt32) :
      ReliableSendReach rel → ReliableSendReach (reliableSendPurge rel acks)
  | send {rel : Reliable} (now : Int) : ReliableSendReach rel → ReliableSendReach (reliableSend rel now).1
  | scheduleNow {rel : Reliable} (now : Int) :
      ReliableSendReach rel → ReliableSendReach (reliableScheduleNow rel now)

/-- The send window: active entries have distinct ids, each between `1` and `size` old. -/
structure SendWindow (rel : Reliable) : Prop where
  size_pos : 0 < rel.entries.length
  size_le : rel.entries.length ≤ reliableCapacity
  age : ∀ j (hj : j < rel.entries.length), rel.entries[j].active = true →
    1 ≤ (subtractPid rel.packetId rel.entries[j].packetId).toNat ∧
    (subtractPid rel.packetId rel.entries[j].packetId).toNat ≤ rel.entries.length
  distinct : ∀ j k (hj : j < rel.entries.length) (hk : k < rel.entries.length), j ≠ k →
    rel.entries[j].active = true → rel.entries[k].active = true →
    rel.entries[j].packetId ≠ rel.entries[k].packetId

/-- `a` is the age of the oldest active entry, `0` when there is none. -/
def SendOldest (rel : Reliable) (a : Nat) : Prop :=
  (∀ j (hj : j < rel.entries.length), rel.entries[j].active = true →
    (subtractPid rel.packetId rel.entries[j].packetId).toNat ≤ a) ∧
  (a = 0 ∨ ∃ j, ∃ hj : j < rel.entries.length, rel.entries[j].active = true ∧
    (subtractPid rel.packetId rel.entries[j].packetId).toNat = a)

theorem sendWindow_init {n : Nat} {hold : Bool} {rel : Reliable} (h : reliableInit n hold = some rel) :
    SendWindow rel := by
  unfold reliableInit at h
  split_ifs at h with hn
  cases h
  refine ⟨by simpa using hn.1, by simpa using hn.2, fun j hj hact => ?_, fun j k hj _ _ hact => ?_⟩
  · simp [clearedReliableEntry] at hact
  · simp [clearedReliableEntry] at hact

/-- A list of distinct numbers in `1 .. a` has at most `a` elements. -/
theorem length_le_of_nodup_of_mem_Icc {l : List Nat} {a : Nat} (hl : l.Nodup)
    (h : ∀ x ∈ l, 1 ≤ x ∧ x ≤ a) : l.length ≤ a := by
  rw [← List.toFinset_card_of_nodup hl]
  calc l.toFinset.card ≤ (Finset.Icc 1 a).card :=
        Finset.card_le_card fun x hx => Finset.mem_Icc.mpr (h x (List.mem_toFinset.mp hx))
    _ = a := by simp

namespace SendWindow

variable {rel : Reliable}

theorem age_lt (hw : SendWindow rel) {e : ReliableEntry} (he : e ∈ rel.entries) (hact : e.active = true) :
    (subtractPid rel.packetId e.packetId).toNat < 2 ^ 31 := by
  obtain ⟨j, hj, rfl⟩ := List.getElem_of_mem he
  have := (hw.age j hj hact).2
  have := hw.size_le
  unfold reliableCapacity at this
  omega

/-- Entries that only lose their activity and keep their ids keep the window. -/
theorem shrink (hw : SendWindow rel) {rel' : Reliable} (hp : rel'.packetId = rel.packetId)
    (hlen : rel'.entries.length = rel.entries.length)
    (hsub : ∀ j (hj : j < rel'.entries.length) (hj' : j < rel.entries.length),
      rel'.entries[j].active = true →
        rel.entries[j].active = true ∧ rel'.entries[j].packetId = rel.entries[j].packetId) :
    SendWindow rel' := by
  refine ⟨hlen ▸ hw.size_pos, hlen ▸ hw.size_le, fun j hj hact => ?_, fun j k hj hk hjk hactj hactk => ?_⟩
  · obtain ⟨hact', hid⟩ := hsub j hj (hlen ▸ hj) hact
    rw [hp, hid]
    have := hw.age j _ hact'
    omega
  · obtain ⟨hactj', hidj⟩ := hsub j hj (hlen ▸ hj) hactj
    obtain ⟨hactk', hidk⟩ := hsub k hk (hlen ▸ hk) hactk
    rw [hidj, hidk]
    exact hw.distinct j k _ _ hjk hactj' hactk'

theorem purge (hw : SendWindow rel) (acks : List UInt32) : SendWindow (reliableSendPurge rel acks) := by
  induction acks generalizing rel with
  | nil => exact hw
  | cons pid acks ih =>
      refine ih (hw.shrink rfl (List.length_map _) fun j _ _ hact => ?_)
      simp only [List.getElem_map, reliableSendPurgeEntry] at hact ⊢
      split_ifs at hact ⊢ <;> simp_all

theorem send (hw : SendWindow rel) (now : Int) : SendWindow (reliableSend rel now).1 := by
  unfold reliableSend
  cases reliableSendBest rel.entries now with
  | none => exact hw
  | some b =>
      refine hw.shrink rfl (List.length_modify _ _ _) fun j _ _ hact => ?_
      simp only [List.getElem_modify] at hact ⊢
      split_ifs at hact ⊢ <;> exact ⟨hact, rfl⟩

theorem scheduleNow (hw : SendWindow rel) (now : Int) : SendWindow (reliableScheduleNow rel now) := by
  refine hw.shrink rfl (List.length_map _) fun j _ _ hact => ?_
  simp only [reliableScheduleNow, List.getElem_map] at hact ⊢
  split_ifs at hact ⊢ <;> exact ⟨hact, rfl⟩

/-- A granted buffer numbers its packet with the expected id: every other active id grows one
older, which the check of `reliable_get_buf_output_sequenced` keeps within `size`. -/
theorem output (hw : SendWindow rel) {rel' : Reliable} {opcode : Int} {data : List UInt8} {i : Nat}
    (h : reliableOutput rel opcode data = some (rel', i)) : SendWindow rel' := by
  obtain ⟨hi, hfree, hrange, hp, hlen, hother, hi', hact_i, hid_i, -⟩ := reliableOutput_eq_some h
  -- before the new packet every active id is less than `size` old
  have hyoung : ∀ j (hj : j < rel.entries.length), rel.entries[j].active = true →
      (subtractPid rel.packetId rel.entries[j].packetId).toNat < rel.entries.length := by
    intro j hj hact
    have hspec := minActiveId_spec rel.entries fun e he hact => hw.age_lt he hact
    cases hm : minActiveId rel.entries with
    | none => exact absurd ((hspec.1.mp hm) _ (List.getElem_mem hj)) (by simp [hact])
    | some m =>
        have hle := (hspec.2 m hm).2 _ (List.getElem_mem hj) hact
        have hin := (reliablePidInRange1_iff _ _ _).mp (hrange m hm)
        have hcap := hw.size_le
        rw [UInt32.toNat_ofNat', Reliable.size, Nat.mod_eq_of_lt (by unfold reliableCapacity at hcap; omega)] at hin
        omega
  have hcap := hw.size_le
  unfold reliableCapacity at hcap
  refine ⟨hlen ▸ hw.size_pos, hlen ▸ hw.size_le, fun j hj hact => ?_, fun j k hj hk hjk hactj hactk => ?_⟩
  · rw [hp, hlen]
    by_cases hij : i = j
    · subst hij
      rw [hid_i, toNat_subtractPid_succ_self]
      exact ⟨le_rfl, hw.size_pos⟩
    · rw [hother j hj (hlen ▸ hj) hij] at hact ⊢
      have := hyoung j _ hact
      rw [toNat_subtractPid_succ (by omega)]
      omega
  · -- the new id is `0` old, every other active id at least `1`
    have hnew : ∀ k (hk : k < rel'.entries.length), i ≠ k → rel'.entries[k].active = true →
        rel'.entries[i].packetId ≠ rel'.entries[k].packetId := by
      intro k hk hik hactk heq
      rw [hother k hk (hlen ▸ hk) hik] at hactk heq
      have := (hw.age k _ hactk).1
      rw [← heq, hid_i, toNat_subtractPid_self] at this
      omega
    by_cases hij : i = j
    · subst hij
      exact hnew k hk hjk hactk
    · by_cases hik : i = k
      · subst hik
        exact (hnew j hj hij hactj).symm
      · rw [hother j hj (hlen ▸ hj) hij] at hactj ⊢
        rw [hother k hk (hlen ▸ hk) hik] at hactk ⊢
        exact hw.distinct j k _ _ hjk hactj hactk

/-- Deleting the buffer just numbered frees its entry; the expected id is the one after it
already. -/
theorem outputDeleted (hw : SendWindow rel) {rel' rel'' : Reliable} {opcode : Int}
    {data : List UInt8} {i : Nat} (h : reliableOutput rel opcode data = some (rel', i))
    (hdel : reliableMarkDeleted rel' i = some rel'') : SendWindow rel'' := by
  have hw' := hw.output h
  obtain ⟨-, -, -, hp, -, -, hi', -, hid_i, -⟩ := reliableOutput_eq_some h
  obtain ⟨hi'', rfl⟩ := reliableMarkDeleted_eq_some hdel
  refine hw'.shrink (by simp only [hid_i, hp]) List.length_set fun j _ _ hact => ?_
  by_cases hij : i = j
  · subst hij
    simp at hact
  · rw [List.getElem_set_ne hij] at hact ⊢
    exact ⟨hact, rfl⟩

/-- The oldest active entry is what `minActiveId` finds. -/
theorem exists_oldest (hw : SendWindow rel) : ∃ a, SendOldest rel a ∧ a ≤ rel.entries.length := by
  have hspec := minActiveId_spec rel.entries fun e he hact => hw.age_lt he hact
  cases hm : minActiveId rel.entries with
  | none =>
      refine ⟨0, ⟨fun j hj hact => ?_, Or.inl rfl⟩, Nat.zero_le _⟩
      exact absurd ((hspec.1.mp hm) _ (List.getElem_mem hj)) (by simp [hact])
  | some m =>
      obtain ⟨⟨e, he, hact, rfl⟩, hle⟩ := hspec.2 m hm
      obtain ⟨j, hj, rfl⟩ := List.getElem_of_mem he
      exact ⟨_, ⟨fun k hk hactk => hle _ (List.getElem_mem hk) hactk, Or.inr ⟨j, hj, hact, rfl⟩⟩,
        (hw.age j hj hact).2⟩

theorem age_minActiveId (hw : SendWindow rel) {a : Nat} (ho : SendOldest rel a) {m : UInt32}
    (hm : minActiveId rel.entries = some m) : (subtractPid rel.packetId m).toNat = a := by
  have hspec := minActiveId_spec rel.entries fun e he hact => hw.age_lt he hact
  obtain ⟨⟨e, he, hact, rfl⟩, hle⟩ := hspec.2 m hm
  obtain ⟨j, hj, rfl⟩ := List.getElem_of_mem he
  have hup := ho.1 j hj hact
  have hpos := (hw.age j hj hact).1
  rcases ho.2 with rfl | ⟨k, hk, hactk, hage⟩
  · omega
  · have := hle _ (List.getElem_mem hk) hactk
    omega

/-- `reliable_get_num_output_sequenced_available` is `size` less the age of the oldest entry. -/
theorem available_eq (hw : SendWindow rel) {a : Nat} (ho : SendOldest rel a) (ha : a ≤ rel.entries.length) :
    reliableGetNumOutputSequencedAvailable rel = (rel.entries.length : Int) - a := by
  unfold reliableGetNumOutputSequencedAvailable
  cases hm : minActiveId rel.entries with
  | none =>
      have hspec := minActiveId_spec rel.entries fun e he hact => hw.age_lt he hact
      rcases ho.2 with rfl | ⟨k, hk, hactk, -⟩
      · simp [Reliable.size]
      · exact absurd ((hspec.1.mp hm) _ (List.getElem_mem hk)) (by simp [hactk])
  | some m =>
      have hcap := hw.size_le
      unfold reliableCapacity at hcap
      dsimp only
      rw [hw.age_minActiveId ho hm, Reliable.size]
      exact toCInt_of_le (by omega) (by omega)

/-- While the oldest entry is less than `size` old there is a free entry: `size` active entries
would need `size` distinct ages in `1 .. size - 1`. -/
theorem canGet (hw : SendWindow rel) {a : Nat} (ho : SendOldest rel a) (hlt : a < rel.entries.length) :
    reliableCanGet rel = true := by
  by_contra hfull
  have hall : ∀ j (hj : j < rel.entries.length), rel.entries[j].active = true := by
    intro j hj
    simp only [reliableCanGet, Bool.not_eq_true, List.any_eq_false] at hfull
    simpa using hfull _ (List.getElem_mem hj)
  let ages := rel.entries.map fun e => (subtractPid rel.packetId e.packetId).toNat
  have hnodup : ages.Nodup := by
    refine List.pairwise_iff_getElem.mpr fun j k hj hk hjk heq => ?_
    simp only [ages, List.getElem_map] at heq
    simp only [ages, List.length_map] at hj hk
    exact hw.distinct j k hj hk (Nat.ne_of_lt hjk) (hall j hj) (hall k hk) (eq_of_toNat_subtractPid_eq heq)
  have hle := length_le_of_nodup_of_mem_Icc hnodup fun x hx => by
    obtain ⟨j, hj, rfl⟩ := List.getElem_of_mem hx
    simp only [ages, List.getElem_map]
    simp only [ages, List.length_map] at hj
    exact ⟨(hw.age j hj (hall j hj)).1, ho.1 j hj (hall j hj)⟩
  simp only [ages, List.length_map] at hle
  omega

/-- While the oldest entry is less than `size` old, a buffer is granted and numbered, and the
oldest entry grows one older. -/
theorem output_of_lt (hw : SendWindow rel) {a : Nat} (ho : SendOldest rel a) (hlt : a < rel.entries.length)
    (opcode : Int) (data : List UInt8) :
    ∃ rel' i, reliableOutput rel opcode data = some (rel', i) ∧ SendOldest rel' (a + 1) := by
  have hcap := hw.size_le
  unfold reliableCapacity at hcap
  have hrange : ∀ m, minActiveId rel.entries = some m →
      reliablePidInRange1 rel.packetId m (UInt32.ofNat rel.size) = true := by
    intro m hm
    rw [reliablePidInRange1_iff, hw.age_minActiveId ho hm, UInt32.toNat_ofNat', Reliable.size,
      Nat.mod_eq_of_lt (by omega)]
    exact hlt
  obtain ⟨rel', i, h⟩ := reliableOutput_isSome (hw.canGet ho hlt) hrange opcode data
  obtain ⟨hi, hfree, -, hp, hlen, hother, hi', hact_i, hid_i, -⟩ := reliableOutput_eq_some h
  refine ⟨rel', i, h, fun j hj hact => ?_, Or.inr ?_⟩
  · rw [hp]
    by_cases hij : i = j
    · subst hij
      rw [hid_i, toNat_subtractPid_succ_self]
      omega
    · rw [hother j hj (hlen ▸ hj) hij] at hact ⊢
      have := ho.1 j _ hact
      rw [toNat_subtractPid_succ (by omega)]
      omega
  · rcases ho.2 with rfl | ⟨k, hk, hactk, hage⟩
    · exact ⟨i, hi', hact_i, by rw [hp, hid_i, toNat_subtractPid_succ_self]⟩
    · -- the oldest entry was active, so it is not the free entry `i`
      have hik : i ≠ k := fun h => by subst h; simp [hfree] at hactk
      refine ⟨k, hlen ▸ hk, ?_, ?_⟩
      · rw [hother k _ hk hik]
        exact hactk
      · rw [hother k _ hk hik, hp, toNat_subtractPid_succ (by omega), hage]

end SendWindow

theorem sendWindow_of_reach {rel : Reliable} (h : ReliableSendReach rel) : SendWindow rel := by
  induction h with
  | init hinit => exact sendWindow_init hinit
  | output _ hout ih => exact ih.output hout
  | outputDeleted _ hout hdel ih => exact ih.outputDeleted hout hdel
  | purge acks _ ih => exact ih.purge acks
  | send now _ ih => exact ih.send now
  | scheduleNow now _ ih => exact ih.scheduleNow now

/-- As many packets as the oldest entry leaves room for are written one after the other. -/
theorem writeOutgoingTlsCiphertextLoop_of_le (packets : List (Int × List UInt8)) :
    ∀ {rel : Reliable} {a : Nat}, ReliableSendReach rel → SendOldest rel a →
      packets.length + a ≤ rel.entries.length →
      ∃ rel', writeOutgoingTlsCiphertextLoop rel packets = some rel' ∧ ReliableSendReach rel' := by
  induction packets with
  | nil => exact fun h _ _ => ⟨_, rfl, h⟩
  | cons packet rest ih =>
      intro rel a h ho hlen
      obtain ⟨opcode, chunk⟩ := packet
      obtain ⟨rel', i, hout, ho'⟩ :=
        (sendWindow_of_reach h).output_of_lt ho (by simp at hlen; omega) opcode chunk
      obtain ⟨-, -, -, -, hlen', -⟩ := reliableOutput_eq_some hout
      obtain ⟨rel'', hloop, hreach⟩ := ih (h.output hout) ho' (by simp at hlen; omega)
      exact ⟨rel'', by simp [writeOutgoingTlsCiphertextLoop, hout, hloop], hreach⟩

/-- **The send window and the capacity promise.** In every run of the send side the active entries
have distinct ids, each between `1` and `size` old; `reliable_get_num_output_sequenced_available`
lies in `0 .. size`; and that many packets are granted and numbered one after the other by the loop
of `write_outgoing_tls_ciphertext`, so its `ASSERT(buf)` never fires. -/
theorem reliable_send_window_grants_available {rel : Reliable} (h : ReliableSendReach rel) :
    (∀ j k (hj : j < rel.entries.length) (hk : k < rel.entries.length), j ≠ k →
      rel.entries[j].active = true → rel.entries[k].active = true →
      rel.entries[j].packetId ≠ rel.entries[k].packetId) ∧
    (∀ j (hj : j < rel.entries.length), rel.entries[j].active = true →
      1 ≤ (subtractPid rel.packetId rel.entries[j].packetId).toNat ∧
      (subtractPid rel.packetId rel.entries[j].packetId).toNat ≤ rel.size) ∧
    0 ≤ reliableGetNumOutputSequencedAvailable rel ∧ reliableGetNumOutputSequencedAvailable rel ≤ rel.size ∧
    ∀ packets : List (Int × List UInt8), (packets.length : Int) ≤ reliableGetNumOutputSequencedAvailable rel →
      ∃ rel', writeOutgoingTlsCiphertextLoop rel packets = some rel' ∧ ReliableSendReach rel' := by
  have hw := sendWindow_of_reach h
  obtain ⟨a, ho, ha⟩ := hw.exists_oldest
  have havail := hw.available_eq ho ha
  refine ⟨hw.distinct, hw.age, by rw [havail]; omega, by rw [havail, Reliable.size]; omega,
    fun packets hlen => writeOutgoingTlsCiphertextLoop_of_le packets h ho ?_⟩
  rw [havail] at hlen
  omega

/-- Four entries: two packets numbered and the first acknowledged leave room for three more. -/
theorem reliable_send_window_grants_available_after_ack :
    ∃ rel, ReliableSendReach rel ∧ rel.packetId = 2 ∧ reliableGetNumOutputSequencedAvailable rel = 3 ∧
      ∃ rel', writeOutgoingTlsCiphertextLoop rel [(4, [3]), (4, [4]), (4, [5])] = some rel' := by
  have h₀ : reliableInit 4 false = some ⟨0, 0, false, List.replicate 4 clearedReliableEntry⟩ := rfl
  have h₁ : reliableOutput ⟨0, 0, false, List.replicate 4 clearedReliableEntry⟩ 4 [1] =
      some (⟨0, 1, false, ⟨true, 0, 0, 0, 0, 4, [0, 0, 0, 0, 1]⟩ ::
        List.replicate 3 clearedReliableEntry⟩, 0) := by
    decide
  have h₂ : reliableOutput ⟨0, 1, false, ⟨true, 0, 0, 0, 0, 4, [0, 0, 0, 0, 1]⟩ ::
        List.replicate 3 clearedReliableEntry⟩ 4 [2] =
      some (⟨0, 2, false, ⟨true, 0, 0, 0, 0, 4, [0, 0, 0, 0, 1]⟩ :: ⟨true, 0, 0, 1, 0, 4, [0, 0, 0, 1, 2]⟩ ::
        List.replicate 2 clearedReliableEntry⟩, 1) := by
    decide
  have hreach := (((ReliableSendReach.init h₀).output h₁).output h₂).purge [0]
  obtain ⟨-, -, -, -, hloop⟩ := reliable_send_window_grants_available hreach
  obtain ⟨rel', hrun, -⟩ := hloop [(4, [3]), (4, [4]), (4, [5])] (by decide)
  exact ⟨_, hreach, rfl, by decide, rel', hrun⟩

end OpenVpn
