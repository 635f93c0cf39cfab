import Mathlib
import OpenVpn.Reliable

/-! The receive side of the reliability layer as `tls_pre_decrypt` and the TLS state machine of
`ssl.c` drive it: an incoming control packet is stored in a free entry when it keeps the sequence
and is no replay, and the entry with the expected packet id is handed to TLS and deleted. Over
every run the entries handed out carry the ids `0, 1, 2, …` modulo `2^32`, each with the contents
of a packet that arrived with that id, and no two active entries share an id. The sequence check
also admits ids more than `2^31` behind the expected one while the expected id is in the upper
half of the id space: a run that counts that far can fill every entry with such ids, after which
nothing is stored or handed out again. -/

namespace OpenVpn

/-- The receive part of `tls_pre_decrypt` for a control packet other than `P_ACK_V1` whose packet
id `id` has been read; `fits` is whether `buf_copy` finds room for the packet in the entry. The
acknowledgement of `id` is not part of this model. -/
def reliableIncoming (rel : Reliable) (id : UInt32) (opcode : Int) (packet : List UInt8)
    (fits : Bool) : Option Reliable :=
  if reliableCanGet rel && reliableWontBreakSequentiality rel id && reliableNotReplay rel id then
    match reliableGetBuf rel with
    | none => none
    | some (rel, i) =>
        if fits then
          reliableMarkActiveIncoming
            { rel with entries := rel.entries.modify i fun e => { e with payload := packet } } i id opcode
        else some rel
  else some rel

/-- `reliable_get_entry_sequenced`, and `reliable_mark_deleted` of the entry's buffer once TLS has
taken it: the state, and the packet id and contents handed to TLS. -/
def reliableDeliver (rel : Reliable) : Option (Reliable × UInt32 × List UInt8) :=
  match reliableGetEntrySequenced rel with
  | none => none
  | some i =>
      match rel.entries[i]? with
      | none => none
      | some e => (reliableMarkDeleted rel i).map fun rel' => (rel', e.packetId, e.payload)

/-- An entry after `reliable_get_buf`, `buf_copy` of `packet` and `reliable_mark_active_incoming`. -/
def storeIncoming (e : ReliableEntry) (id : UInt32) (opcode : Int) (packet : List UInt8) :
    ReliableEntry :=
  { e with payload := packet, active := true, packetId := id, opcode := opcode, nextTry := 0,
           timeout := 0, nAcks := 0 }

@[simp] theorem active_storeIncoming (e : ReliableEntry) (id opcode packet) :
    (storeIncoming e id opcode packet).active = true := rfl

@[simp] theorem packetId_storeIncoming (e : ReliableEntry) (id opcode packet) :
    (storeIncoming e id opcode packet).packetId = id := rfl

@[simp] theorem payload_storeIncoming (e : ReliableEntry) (id opcode packet) :
    (storeIncoming e id opcode packet).payload = packet := rfl

/-! ## One incoming packet, one delivery -/

/-- The packet is stored in the first free entry when both checks pass and it fits. -/
theorem reliableIncoming_eq_store {rel : Reliable} {id : UInt32} {opcode : Int} {packet : List UInt8}
    (hcheck : reliableWontBreakSequentiality rel id = true) (hreplay : reliableNotReplay rel id = true)
    {i : Nat} (hi : i < rel.entries.length) (hfree : rel.entries[i].active = false)
    (hfirst : ∀ j (hj : j < i), (getElem rel.entries j (Nat.lt_trans hj hi)).active = true) :
    reliableIncoming rel id opcode packet true =
      some { rel with entries := rel.entries.modify i fun e => storeIncoming e id opcode packet } := by
  have hcan : reliableCanGet rel = true :=
    List.any_eq_true.mpr ⟨_, List.getElem_mem hi, by simp [hfree]⟩
  have hbuf : reliableGetBuf rel =
      some ({ rel with entries := rel.entries.modify i fun e => { e with payload := [] } }, i) := by
    unfold reliableGetBuf
    rw [List.findIdx?_eq_some_iff_getElem.mpr ⟨hi, by simp [hfree], fun j hj => by simp [hfirst j hj]⟩]
  have hmin : reliablePidMin id rel.packetId = false := by
    simp only [reliableNotReplay, Bool.and_eq_true, Bool.not_eq_true'] at hreplay
    exact hreplay.1
  unfold reliableIncoming reliableMarkActiveIncoming
  simp only [hcan, hcheck, hreplay, hbuf, Bool.and_self, if_true, Reliable.size, List.length_modify,
    hi, hmin, Bool.false_eq_true, if_false, List.modify_modify_eq]
  rfl

/-- Every incoming packet is either dropped, leaving the active entries as they were, or stored
in the first free entry after passing both checks. -/
theorem reliableIncoming_cases {rel rel' : Reliable} {id : UInt32} {opcode : Int}
    {packet : List UInt8} {fits : Bool} (h : reliableIncoming rel id opcode packet fits = some rel') :
    rel' = rel ∨ ∃ i, ∃ hi : i < rel.entries.length, rel.entries[i].active = false ∧
      (∀ j (hj : j < i), (getElem rel.entries j (Nat.lt_trans hj hi)).active = true) ∧
      (rel' = { rel with entries := rel.entries.modify i fun e => { e with payload := [] } } ∨
        reliableWontBreakSequentiality rel id = true ∧ reliableNotReplay rel id = true ∧
        rel' = { rel with entries := rel.entries.modify i fun e => storeIncoming e id opcode packet }) := by
  have hin := h
  unfold reliableIncoming at h
  by_cases hchecks :
      (reliableCanGet rel && reliableWontBreakSequentiality rel id && reliableNotReplay rel id) = true
  · rw [if_pos hchecks] at h
    simp only [Bool.and_eq_true] at hchecks
    obtain ⟨⟨-, hcheck⟩, hreplay⟩ := hchecks
    cases hbuf : reliableGetBuf rel with
    | none =>
        rw [hbuf] at h
        cases h
    | some r =>
        obtain ⟨rel₁, i⟩ := r
        obtain ⟨hi, hfree, hfirst, rfl⟩ := reliableGetBuf_eq_some hbuf
        rw [hbuf] at h
        refine Or.inr ⟨i, hi, hfree, hfirst, ?_⟩
        cases fits with
        | false =>
            -- `buf_copy` failed: the entry stays free with an empty buffer
            exact Or.inl (Option.some.inj h).symm
        | true =>
            refine Or.inr ⟨hcheck, hreplay, Option.some.inj ?_⟩
            rw [← hin, reliableIncoming_eq_store hcheck hreplay hi hfree hfirst]
  · rw [if_neg hchecks] at h
    exact Or.inl (Option.some.inj h).symm

theorem reliableNotReplay_of_fresh {rel : Reliable} {id : UInt32}
    (hmin : reliablePidMin id rel.packetId = false)
    (hfresh : ∀ j (hj : j < rel.entries.length), rel.entries[j].active = true → rel.entries[j].packetId ≠ id) :
    reliableNotReplay rel id = true := by
  simp only [reliableNotReplay, hmin, Bool.not_false, Bool.true_and, Bool.not_eq_true',
    List.any_eq_false, Bool.and_eq_true, beq_iff_eq, not_and]
  intro e he hact
  obtain ⟨j, hj, rfl⟩ := List.getElem_of_mem he
  exact hfresh j hj hact

/-- Without a free entry every incoming packet is dropped. -/
theorem reliableIncoming_of_canGet_false {rel : Reliable} (h : reliableCanGet rel = false)
    (id : UInt32) (opcode : Int) (packet : List UInt8) (fits : Bool) :
    reliableIncoming rel id opcode packet fits = some rel := by
  simp [reliableIncoming, h]

theorem reliableDeliver_eq_some {rel rel' : Reliable} {id : UInt32} {packet : List UInt8}
    (h : reliableDeliver rel = some (rel', id, packet)) :
    ∃ i, ∃ hi : i < rel.entries.length, rel.entries[i].active = true ∧
      rel.entries[i].packetId = rel.packetId ∧ id = rel.packetId ∧ packet = rel.entries[i].payload ∧
      rel' = { rel with
        packetId := rel.packetId + 1
        entries := rel.entries.set i { rel.entries[i] with active := false } } := by
  unfold reliableDeliver at h
  cases hseq : reliableGetEntrySequenced rel with
  | none =>
      rw [hseq] at h
      cases h
  | some i =>
      obtain ⟨hi, hact, hid⟩ := reliableGetEntrySequenced_eq_some hseq
      rw [hseq] at h
      simp only [List.getElem?_eq_getElem hi, reliableMarkDeleted_of_lt hi, Option.map_some,
        Option.some.injEq, Prod.mk.injEq] at h
      obtain ⟨rfl, rfl, rfl⟩ := h
      exact ⟨i, hi, hact, hid, hid, rfl, by rw [show (rel.entries[i]).packetId + 1 = rel.packetId + 1 by rw [hid]]⟩

/-- The entry with the expected id is handed out when it is the first such entry. -/
theorem reliableDeliver_of_first {rel : Reliable} {i : Nat} (hi : i < rel.entries.length)
    (hact : rel.entries[i].active = true) (hid : rel.entries[i].packetId = rel.packetId)
    (hfirst : ∀ j (hj : j < i), ¬((getElem rel.entries j (Nat.lt_trans hj hi)).active = true ∧
      (getElem rel.entries j (Nat.lt_trans hj hi)).packetId = rel.packetId)) :
    reliableDeliver rel = some ({ rel with
        packetId := rel.packetId + 1
        entries := rel.entries.set i { rel.entries[i] with active := false } },
      rel.packetId, rel.entries[i].payload) := by
  have hseq : reliableGetEntrySequenced rel = some i := by
    unfold reliableGetEntrySequenced
    refine List.findIdx?_eq_some_iff_getElem.mpr ⟨hi, by simp [hact, hid], fun j hj => ?_⟩
    simpa using hfirst j hj
  unfold reliableDeliver
  simp only [hseq, List.getElem?_eq_getElem hi, reliableMarkDeleted_of_lt hi, Option.map_some, hid]

theorem reliableDeliver_eq_none_iff {rel : Reliable} :
    reliableDeliver rel = none ↔ ∀ e ∈ rel.entries, ¬(e.active = true ∧ e.packetId = rel.packetId) := by
  rw [← reliableGetEntrySequenced_eq_none_iff]
  unfold reliableDeliver
  cases hseq : reliableGetEntrySequenced rel with
  | none => simp
  | some i =>
      obtain ⟨hi, -, -⟩ := reliableGetEntrySequenced_eq_some hseq
      simp [List.getElem?_eq_getElem hi, reliableMarkDeleted_of_lt hi]

/-! ## Runs of the receive side -/

/-- The receive-side states reachable from `reliable_init`, with the packets that arrived (id and
contents, stored or not) and the packets handed to TLS, in order. -/
inductive ReliableRecvReach : Reliable → List (UInt32 × List UInt8) → List (UInt32 × List UInt8) → Prop
  | init {n : Nat} {hold : Bool} {rel : Reliable} :
      reliableInit n hold = some rel → ReliableRecvReach rel [] []
  | arrive {rel rel' : Reliable} {arr del : List (UInt32 × List UInt8)} {id : UInt32} {opcode : Int}
      {packet : List UInt8} {fits : Bool} :
      ReliableRecvReach rel arr del → reliableIncoming rel id opcode packet fits = some rel' →
      ReliableRecvReach rel' (arr ++ [(id, packet)]) del
  | deliver {rel rel' : Reliable} {arr del : List (UInt32 × List UInt8)} {id : UInt32}
      {packet : List UInt8} :
      ReliableRecvReach rel arr del → reliableDeliver rel = some (rel', id, packet) →
      ReliableRecvReach rel' arr (del ++ [(id, packet)])

/-- The active entries hold packets of `arr`, with distinct ids. -/
structure ActiveEntries (arr : List (UInt32 × List UInt8)) (entries : List ReliableEntry) : Prop where
  stored : ∀ j (hj : j < entries.length), entries[j].active = true →
    (entries[j].packetId, entries[j].payload) ∈ arr
  distinct : ∀ j k (hj : j < entries.length) (hk : k < entries.length), j ≠ k →
    entries[j].active = true → entries[k].active = true → entries[j].packetId ≠ entries[k].packetId

namespace ActiveEntries

variable {arr arr' : List (UInt32 × List UInt8)} {entries entries' : List ReliableEntry}

theorem mono (h : ActiveEntries arr entries) (harr : arr ⊆ arr') : ActiveEntries arr' entries where
  stored j hj hact := harr (h.stored j hj hact)
  distinct := h.distinct

/-- Changing entry `i` keeps the active entries right when the new entry, if active, holds a
packet of `arr'` whose id no other active entry holds. -/
theorem update (h : ActiveEntries arr entries) (harr : arr ⊆ arr') {i : Nat}
    (hlen : entries'.length = entries.length)
    (hother : ∀ j (hj : j < entries'.length) (hj' : j < entries.length), i ≠ j → entries'[j] = entries[j])
    (hnew : ∀ hi : i < entries'.length, entries'[i].active = true →
      (entries'[i].packetId, entries'[i].payload) ∈ arr' ∧
      ∀ k (hk : k < entries.length), i ≠ k → entries[k].active = true →
        entries[k].packetId ≠ entries'[i].packetId) :
    ActiveEntries arr' entries' := by
  refine ⟨fun j hj hact => ?_, fun j k hj hk hjk hactj hactk => ?_⟩
  · by_cases hij : i = j
    · subst hij
      exact (hnew hj hact).1
    · rw [hother j hj (hlen ▸ hj) hij] at hact ⊢
      exact harr (h.stored j _ hact)
  · by_cases hij : i = j <;> by_cases hik : i = k
    · exact absurd (hij.symm.trans hik) hjk
    · subst hij
      rw [hother k hk (hlen ▸ hk) hik] at hactk ⊢
      exact ((hnew hj hactj).2 k _ hik hactk).symm
    · subst hik
      rw [hother j hj (hlen ▸ hj) hij] at hactj ⊢
      exact (hnew hk hactk).2 j _ hij hactj
    · rw [hother j hj (hlen ▸ hj) hij] at hactj ⊢
      rw [hother k hk (hlen ▸ hk) hik] at hactk ⊢
      exact h.distinct j k _ _ hjk hactj hactk

end ActiveEntries

/-- The invariant of the receive side: the expected id counts the deliveries, each delivery is an
arrival with its index as id, and the active entries hold arrivals with distinct ids. -/
structure ReliableRecvInv (rel : Reliable) (arr del : List (UInt32 × List UInt8)) : Prop where
  packetId_eq : rel.packetId = UInt32.ofNat del.length
  delivered : ∀ k (hk : k < del.length), del[k].1 = UInt32.ofNat k ∧ del[k] ∈ arr
  active : ActiveEntries arr rel.entries

theorem reliableRecvInv_init {n : Nat} {hold : Bool} {rel : Reliable}
    (h : reliableInit n hold = some rel) : ReliableRecvInv rel [] [] := by
  unfold reliableInit at h
  split_ifs at h
  cases h
  refine ⟨rfl, fun k hk => absurd hk (Nat.not_lt_zero k), fun j hj hact => ?_, fun j k hj _ _ hact => ?_⟩
  · simp [clearedReliableEntry] at hact
  · simp [clearedReliableEntry] at hact

namespace ReliableRecvInv

variable {rel : Reliable} {arr del : List (UInt32 × List UInt8)}

/-- A packet that arrives and is not stored changes nothing of the invariant. -/
theorem arrival (h : ReliableRecvInv rel arr del) (x : UInt32 × List UInt8) :
    ReliableRecvInv rel (arr ++ [x]) del where
  packetId_eq := h.packetId_eq
  delivered k hk := ⟨(h.delivered k hk).1, List.mem_append_left _ (h.delivered k hk).2⟩
  active := h.active.mono (List.subset_append_left _ _)

theorem incoming (h : ReliableRecvInv rel arr del) {rel' : Reliable} {id : UInt32} {opcode : Int}
    {packet : List UInt8} {fits : Bool} (hin : reliableIncoming rel id opcode packet fits = some rel') :
    ReliableRecvInv rel' (arr ++ [(id, packet)]) del := by
  rcases reliableIncoming_cases hin with rfl | ⟨i, hi, hfree, -, rfl | ⟨-, hreplay, rfl⟩⟩
  · exact h.arrival _
  · -- `buf_init` of a free entry: it stays free
    refine ⟨h.packetId_eq, (h.arrival _).delivered, h.active.update (List.subset_append_left _ _)
      (List.length_modify _ _ _) (fun j _ _ hij => List.getElem_modify_ne _ _ hij _) fun _ hact => ?_⟩
    rw [List.getElem_modify_eq] at hact
    exact absurd (hfree ▸ hact) Bool.false_ne_true
  · -- the stored packet is the new arrival, and the replay check excluded its id
    have hnew : ∀ k (hk : k < rel.entries.length), rel.entries[k].active = true →
        rel.entries[k].packetId ≠ id := by
      intro k hk hact hid
      simp only [reliableNotReplay, Bool.and_eq_true, Bool.not_eq_true', List.any_eq_false] at hreplay
      exact hreplay.2 _ (List.getElem_mem hk) (by simp [hact, hid])
    refine ⟨h.packetId_eq, (h.arrival _).delivered, h.active.update (List.subset_append_left _ _)
      (List.length_modify _ _ _) (fun j _ _ hij => List.getElem_modify_ne _ _ hij _) fun _ _ => ?_⟩
    simp only [List.getElem_modify_eq, packetId_storeIncoming, payload_storeIncoming]
    exact ⟨List.mem_append_right _ (List.mem_singleton_self _), fun k hk _ hact => hnew k hk hact⟩

/-- Handing out the entry with the expected id appends an arrival with that id. -/
theorem deliver (h : ReliableRecvInv rel arr del) {rel' : Reliable} {id : UInt32} {packet : List UInt8}
    (hdel : reliableDeliver rel = some (rel', id, packet)) :
    ReliableRecvInv rel' arr (del ++ [(id, packet)]) := by
  obtain ⟨i, hi, hact, hid, rfl, rfl, rfl⟩ := reliableDeliver_eq_some hdel
  refine ⟨?_, fun k hk => ?_, h.active.update (List.Subset.refl _) List.length_set
    (fun j _ _ hij => List.getElem_set_ne hij _) fun _ hact' => ?_⟩
  · rw [h.packetId_eq, List.length_append, List.length_singleton]
    exact (UInt32.ofNat_add _ _).symm
  · rw [List.length_append, List.length_singleton] at hk
    rcases Nat.lt_succ_iff_lt_or_eq.mp hk with hk | rfl
    · rw [List.getElem_append_left hk]
      exact h.delivered k hk
    · rw [List.getElem_append_right (Nat.le_refl _)]
      simp only [Nat.sub_self, List.getElem_singleton]
      exact ⟨h.packetId_eq, hid ▸ h.active.stored i hi hact⟩
  · -- the handed-out entry is free again
    rw [List.getElem_set_self] at hact'
    exact absurd hact' Bool.false_ne_true

end ReliableRecvInv

theorem reliableRecvInv_of_reach {rel : Reliable} {arr del : List (UInt32 × List UInt8)}
    (h : ReliableRecvReach rel arr del) : ReliableRecvInv rel arr del := by
  induction h with
  | init hinit => exact reliableRecvInv_init hinit
  | arrive _ hin ih => exact ih.incoming hin
  | deliver _ hdel ih => exact ih.deliver hdel

/-- **In-order delivery.** In every run of the receive side, the `k`-th packet handed to TLS has
packet id `k` modulo `2^32` and the contents of a packet that arrived with that id, and no two
active entries hold the same id. -/
theorem reliable_delivers_in_sequence {rel : Reliable} {arr del : List (UInt32 × List UInt8)}
    (h : ReliableRecvReach rel arr del) :
    (∀ k (hk : k < del.length), del[k].1 = UInt32.ofNat k ∧ del[k] ∈ arr) ∧
    ∀ j k (hj : j < rel.entries.length) (hk : k < rel.entries.length), j ≠ k →
      rel.entries[j].active = true → rel.entries[k].active = true →
      rel.entries[j].packetId ≠ rel.entries[k].packetId :=
  ⟨(reliableRecvInv_of_reach h).delivered, (reliableRecvInv_of_reach h).active.distinct⟩

/-- Two entries, the packet with id `1` arriving before the one with id `0`: they are handed out
as `0`, then `1`. -/
theorem reliable_delivers_in_sequence_reordered :
    ∃ rel arr del, ReliableRecvReach rel arr del ∧ del = [(0, [5]), (1, [7])] ∧
      ∀ k (hk : k < del.length), del[k].1 = UInt32.ofNat k ∧ del[k] ∈ arr := by
  have h₀ : reliableInit 2 false = some ⟨0, 0, false, [clearedReliableEntry, clearedReliableEntry]⟩ := rfl
  have h₁ : reliableIncoming ⟨0, 0, false, [clearedReliableEntry, clearedReliableEntry]⟩ 1 0 [7] true =
      some ⟨0, 0, false, [storeIncoming clearedReliableEntry 1 0 [7], clearedReliableEntry]⟩ := by
    decide
  have h₂ : reliableIncoming ⟨0, 0, false, [storeIncoming clearedReliableEntry 1 0 [7], clearedReliableEntry]⟩
      0 0 [5] true = some ⟨0, 0, false, [storeIncoming clearedReliableEntry 1 0 [7],
        storeIncoming clearedReliableEntry 0 0 [5]]⟩ := by
    decide
  have h₃ : reliableDeliver ⟨0, 0, false, [storeIncoming clearedReliableEntry 1 0 [7],
        storeIncoming clearedReliableEntry 0 0 [5]]⟩ =
      some (⟨0, 1, false, [storeIncoming clearedReliableEntry 1 0 [7],
        { storeIncoming clearedReliableEntry 0 0 [5] with active := false }]⟩, 0, [5]) := by
    decide
  have h₄ : reliableDeliver ⟨0, 1, false, [storeIncoming clearedReliableEntry 1 0 [7],
        { storeIncoming clearedReliableEntry 0 0 [5] with active := false }]⟩ =
      some (⟨0, 2, false, [{ storeIncoming clearedReliableEntry 1 0 [7] with active := false },
        { storeIncoming clearedReliableEntry 0 0 [5] with active := false }]⟩, 1, [7]) := by
    decide
  have hreach := ((((ReliableRecvReach.init h₀).arrive h₁).arrive h₂).deliver h₃).deliver h₄
  exact ⟨_, _, _, hreach, rfl, (reliable_delivers_in_sequence hreach).1⟩

/-! ## The sequence check in the upper half of the id space -/

/-- From `reliable_init`, the receive side reaches every expected id `m` with all entries free:
the packet with the expected id arrives and is handed out, `m` times. -/
theorem reliableRecvReach_expected (n : Nat) (hold : Bool) (hn : 0 < n ∧ n ≤ reliableCapacity)
    (m : Nat) :
    ∃ rel arr del, ReliableRecvReach rel arr del ∧ rel.packetId = UInt32.ofNat m ∧
      rel.entries.length = n ∧ ∀ j (hj : j < rel.entries.length), rel.entries[j].active = false := by
  induction m with
  | zero =>
      have hinit : reliableInit n hold = some ⟨0, 0, hold, List.replicate n clearedReliableEntry⟩ := by
        simp [reliableInit, hn.1, hn.2]
      refine ⟨_, [], [], .init hinit, rfl, List.length_replicate, fun j hj => ?_⟩
      simp [clearedReliableEntry]
  | succ m ih =>
      obtain ⟨rel, arr, del, hreach, hid, hlen, hfree⟩ := ih
      have hpos : 0 < rel.entries.length := hlen ▸ hn.1
      have hchecks := (reliableSequenceCheck_iff rel rel.packetId (by unfold Reliable.size; omega)).mpr
        (Or.inl (by have := rel.packetId.toNat_lt; unfold Reliable.size; omega))
      simp only [Bool.and_eq_true, Bool.not_eq_true'] at hchecks
      have hin : reliableIncoming rel rel.packetId 0 [] true = some _ := reliableIncoming_eq_store
        hchecks.1 (reliableNotReplay_of_fresh hchecks.2 fun j hj hact => absurd (hfree j hj) (by simp [hact]))
        hpos (hfree 0 hpos) fun j hj => absurd hj (Nat.not_lt_zero j)
      have hdel : reliableDeliver { rel with
          entries := rel.entries.modify 0 fun e => storeIncoming e rel.packetId 0 [] } = some (_, _, _) :=
        reliableDeliver_of_first (i := 0) (by simpa using hpos) (by simp) (by simp)
          fun j hj => absurd hj (Nat.not_lt_zero j)
      refine ⟨_, _, _, .deliver (.arrive hreach hin) hdel, ?_, by simp [hlen], fun j hj => ?_⟩
      · rw [hid, UInt32.ofNat_add]
        rfl
      · by_cases hj0 : j = 0
        · subst hj0
          simp
        · rw [List.getElem_set_ne (Ne.symm hj0), List.getElem_modify_ne _ _ (Ne.symm hj0)]
          exact hfree j _

/-- From an expected id `base` with free entries, the ids `1, …, j` are stored in the first `j`
entries: in the upper half of the id space they pass the sequence check. -/
theorem reliableRecvReach_fill (n : Nat) (hold : Bool) (hn : 0 < n ∧ n ≤ reliableCapacity)
    (base : UInt32) (hbase : 2 ^ 31 + n < base.toNat ∧ base.toNat + n < 2 ^ 32) (j : Nat) (hj : j ≤ n) :
    ∃ rel arr del, ReliableRecvReach rel arr del ∧ rel.packetId = base ∧ rel.entries.length = n ∧
      ∀ k (hk : k < rel.entries.length),
        (k < j → rel.entries[k].active = true ∧ rel.entries[k].packetId = UInt32.ofNat (k + 1)) ∧
        (j ≤ k → rel.entries[k].active = false) := by
  have hcap : n ≤ 12 := hn.2
  induction j with
  | zero =>
      obtain ⟨rel, arr, del, hreach, hid, hlen, hfree⟩ := reliableRecvReach_expected n hold hn base.toNat
      refine ⟨rel, arr, del, hreach, by rw [hid, UInt32.ofNat_toNat], hlen, fun k hk => ?_⟩
      exact ⟨fun h => absurd h (Nat.not_lt_zero k), fun _ => hfree k hk⟩
  | succ j ih =>
      obtain ⟨rel, arr, del, hreach, hid, hlen, hfill⟩ := ih (by omega)
      have hjlen : j < rel.entries.length := by omega
      have hnat : ∀ k, k ≤ n → (UInt32.ofNat k).toNat = k := fun k hk => by
        rw [UInt32.toNat_ofNat']
        exact Nat.mod_eq_of_lt (by omega)
      -- `j + 1` is more than `2^31` below `base`, and `base + n` does not wrap
      have hchecks := (reliableSequenceCheck_iff rel (UInt32.ofNat (j + 1))
        (by unfold Reliable.size; omega)).mpr (Or.inr (by unfold Reliable.size; rw [hid, hnat _ (by omega)]; omega))
      simp only [Bool.and_eq_true, Bool.not_eq_true'] at hchecks
      have hfresh : ∀ k (hk : k < rel.entries.length), rel.entries[k].active = true →
          rel.entries[k].packetId ≠ UInt32.ofNat (j + 1) := by
        intro k hk hact heq
        have hkj : k < j := by
          by_contra hkj
          rw [(hfill k hk).2 (by omega)] at hact
          exact Bool.false_ne_true hact
        have := congrArg UInt32.toNat ((hfill k hk).1 hkj).2
        rw [heq, hnat _ (by omega), hnat _ (by omega)] at this
        omega
      have hin : reliableIncoming rel (UInt32.ofNat (j + 1)) 0 [] true = some _ :=
        reliableIncoming_eq_store hchecks.1 (reliableNotReplay_of_fresh hchecks.2 hfresh) hjlen ((hfill j hjlen).2 (Nat.le_refl j))
        fun k hk => ((hfill k (by omega)).1 hk).1
      refine ⟨_, _, _, .arrive hreach hin, hid, by simp [hlen], fun k hk => ?_⟩
      by_cases hjk : j = k
      · subst hjk
        simp
      · rw [List.getElem_modify_ne _ _ hjk]
        exact ⟨fun h => (hfill k _).1 (by omega), fun h => (hfill k _).2 (by omega)⟩

/-- **The receive window can deadlock.** For every number of entries and every expected id in the
upper half of the id space, away from its ends, a run of the receive side reaches that expected id
with every entry holding a packet outside the window of `size` ids from it. From there no packet is
handed out and every incoming packet is dropped, whatever its id. -/
theorem reliable_receive_window_deadlocks (n : Nat) (hold : Bool) (hn : 0 < n ∧ n ≤ reliableCapacity)
    (base : UInt32) (hbase : 2 ^ 31 + n < base.toNat ∧ base.toNat + n < 2 ^ 32) :
    ∃ rel arr del, ReliableRecvReach rel arr del ∧ rel.size = n ∧ rel.packetId = base ∧
      (∀ e ∈ rel.entries, e.active = true ∧ rel.size ≤ (subtractPid e.packetId rel.packetId).toNat) ∧
      reliableDeliver rel = none ∧
      ∀ id opcode packet fits, reliableIncoming rel id opcode packet fits = some rel := by
  obtain ⟨rel, arr, del, hreach, hid, hlen, hfill⟩ := reliableRecvReach_fill n hold hn base hbase n le_rfl
  have hcap : n ≤ 12 := hn.2
  -- every entry holds its index plus one
  have hentry : ∀ e ∈ rel.entries, e.active = true ∧ e.packetId.toNat ≤ n ∧ 0 < e.packetId.toNat := by
    intro e he
    obtain ⟨k, hk, rfl⟩ := List.getElem_of_mem he
    obtain ⟨hact, hpid⟩ := (hfill k hk).1 (hlen ▸ hk)
    rw [hpid, UInt32.toNat_ofNat', Nat.mod_eq_of_lt (by omega)]
    exact ⟨hact, by omega, by omega⟩
  refine ⟨rel, arr, del, hreach, hlen, hid, fun e he => ?_, ?_, fun id opcode packet fits => ?_⟩
  · obtain ⟨hact, hle, -⟩ := hentry e he
    refine ⟨hact, ?_⟩
    rw [toNat_subtractPid, hid, Reliable.size, hlen]
    omega
  · refine reliableDeliver_eq_none_iff.mpr fun e he ⟨_, heq⟩ => ?_
    have := (hentry e he).2.1
    rw [heq, hid] at this
    omega
  · refine reliableIncoming_of_canGet_false ?_ id opcode packet fits
    simp only [reliableCanGet, List.any_eq_false, Bool.not_eq_true', Bool.not_eq_false]
    exact fun e he => (hentry e he).1

/-- One entry and the expected id `0x90000000`: the packet with id `1` is stored and the receive
side stalls. -/
theorem reliable_receive_window_deadlocks_one_entry :
    ∃ rel arr del, ReliableRecvReach rel arr del ∧ rel.size = 1 ∧ rel.packetId = 0x90000000 ∧
      (∀ e ∈ rel.entries, e.active = true ∧ rel.size ≤ (subtractPid e.packetId rel.packetId).toNat) ∧
      reliableDeliver rel = none ∧
      ∀ id opcode packet fits, reliableIncoming rel id opcode packet fits = some rel :=
  reliable_receive_window_deadlocks 1 false ⟨by decide, by decide⟩ 0x90000000 ⟨by decide, by decide⟩

end OpenVpn
