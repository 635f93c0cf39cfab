import OpenVpn.ReliableAck

/-! The reliability layer of the control channel, `reliable.c`: an array of entries, each holding
one packet with its 32-bit packet id, and the packet id the direction expects next. Packet ids are
compared modulo `2^32` by `subtract_pid`, `reliable_pid_in_range1`, `reliable_pid_in_range2` and
`reliable_pid_min`. The receive side stores packets in any free entry and hands them out in
sequence; the send side numbers its packets and keeps them until they are acknowledged. Of an
entry's buffer only its content is kept. -/

namespace OpenVpn

/-- `subtract_pid`: `test - base` modulo `2^32`. -/
def subtractPid (test base : UInt32) : UInt32 := test - base

/-- `reliable_pid_in_range1`: `test - base < extent`, modulo `2^32`. -/
def reliablePidInRange1 (test base extent : UInt32) : Bool := subtractPid test base < extent

/-- `reliable_pid_in_range2`: `test < base + extent`, with the operands shifted by `2^31` when
`base + extent` wraps. -/
def reliablePidInRange2 (test base extent : UInt32) : Bool :=
  if base + extent ≥ base then test < base + extent
  else test + 0x80000000 < (base + 0x80000000) + extent

/-- `reliable_pid_min`: `p1` comes before `p2`, within half the id space. -/
def reliablePidMin (p1 p2 : UInt32) : Bool := !reliablePidInRange1 p1 p2 0x80000000

-- `RELIABLE_CAPACITY`; `N_ACK_RETRANSMIT`
def reliableCapacity : Nat := 12

def nAckRetransmit : Nat := 3

/-- `struct reliable_entry`, with the content of its buffer. -/
structure ReliableEntry where
  active : Bool
  timeout : Int
  nextTry : Int
  packetId : UInt32
  nAcks : Nat
  opcode : Int
  payload : List UInt8
  deriving DecidableEq, Repr

/-- A cleared entry. -/
def clearedReliableEntry : ReliableEntry := ⟨false, 0, 0, 0, 0, 0, []⟩

/-- `struct reliable`; its `size` entries are the list. -/
structure Reliable where
  initialTimeout : Int
  packetId : UInt32
  hold : Bool
  entries : List ReliableEntry
  deriving DecidableEq, Repr

/-- `rel->size`. -/
def Reliable.size (rel : Reliable) : Nat := rel.entries.length

/-- `reliable_init`; `none` when its `ASSERT` on the array size fails. -/
def reliableInit (arraySize : Nat) (hold : Bool) : Option Reliable :=
  if 0 < arraySize ∧ arraySize ≤ reliableCapacity then
    some ⟨0, 0, hold, List.replicate arraySize clearedReliableEntry⟩
  else none

/-- `reliable_can_get`. -/
def reliableCanGet (rel : Reliable) : Bool := rel.entries.any fun e => !e.active

/-- `reliable_not_replay`. -/
def reliableNotReplay (rel : Reliable) (id : UInt32) : Bool :=
  !reliablePidMin id rel.packetId && !rel.entries.any fun e => e.active && e.packetId == id

/-- `reliable_wont_break_sequentiality`. -/
def reliableWontBreakSequentiality (rel : Reliable) (id : UInt32) : Bool :=
  reliablePidInRange2 id rel.packetId (UInt32.ofNat rel.size)

/-- `reliable_get_buf`: the first free entry, whose buffer `buf_init` empties. -/
def reliableGetBuf (rel : Reliable) : Option (Reliable × Nat) :=
  match rel.entries.findIdx? fun e => !e.active with
  | none => none
  | some i => some ({ rel with entries := rel.entries.modify i fun e => { e with payload := [] } }, i)

/-- One iteration of the loop that finds the minimum active packet id with `reliable_pid_min`. -/
def minActiveIdStep (minId : Option UInt32) (e : ReliableEntry) : Option UInt32 :=
  if e.active then
    match minId with
    | none => some e.packetId
    | some m => if reliablePidMin e.packetId m then some e.packetId else some m
  else minId

/-- The loop that finds the minimum active packet id. -/
def minActiveId (entries : List ReliableEntry) : Option UInt32 :=
  entries.foldl minActiveIdStep none

/-- `reliable_get_num_output_sequenced_available`; the `int` result of the unsigned subtraction. -/
def reliableGetNumOutputSequencedAvailable (rel : Reliable) : Int :=
  match minActiveId rel.entries with
  | none => rel.size
  | some minId => toCInt ((rel.size : Int) - ((subtractPid rel.packetId minId).toNat : Int))

/-- `reliable_get_buf_output_sequenced`: a free entry, unless the oldest unacknowledged packet is
`size` ids back. -/
def reliableGetBufOutputSequenced (rel : Reliable) : Option (Reliable × Nat) :=
  match minActiveId rel.entries with
  | none => reliableGetBuf rel
  | some minId =>
      if reliablePidInRange1 rel.packetId minId (UInt32.ofNat rel.size) then reliableGetBuf rel
      else none

/-- `reliable_get_entry_sequenced`: the active entry with the expected packet id. -/
def reliableGetEntrySequenced (rel : Reliable) : Option Nat :=
  rel.entries.findIdx? fun e => e.active && e.packetId == rel.packetId

/-- The inner loop of `reliable_send_purge` on one entry for the acknowledged id `pid`. -/
def reliableSendPurgeEntry (pid : UInt32) (e : ReliableEntry) : ReliableEntry :=
  if e.active && e.packetId == pid then { e with active := false }
  else if e.active && e.packetId < pid then { e with nAcks := e.nAcks + 1 }
  else e

/-- `reliable_send_purge`: every acknowledged active entry is freed; the others count the
acknowledgements of higher ids. -/
def reliableSendPurge (rel : Reliable) (acks : List UInt32) : Reliable :=
  acks.foldl (fun rel pid => { rel with entries := rel.entries.map (reliableSendPurgeEntry pid) }) rel

/-- The loop of `reliable_send`: the due entry with the minimum packet id, and its index. -/
def reliableSendBest (entries : List ReliableEntry) (now : Int) : Option (ReliableEntry × Nat) :=
  (entries.zipIdx).foldl (fun best p =>
    if p.1.active && (decide (nAckRetransmit ≤ p.1.nAcks) || decide (p.1.nextTry ≤ now)) then
      match best with
      | none => some p
      | some b => if reliablePidMin p.1.packetId b.1.packetId then some p else best
    else best) none

/-- `reliable_send`: the state and the opcode and contents of the packet to send. -/
def reliableSend (rel : Reliable) (now : Int) : Reliable × Option (Int × List UInt8) :=
  match reliableSendBest rel.entries now with
  | none => (rel, none)
  | some (best, i) =>
      ({ rel with entries := rel.entries.modify i fun e =>
          { e with nextTry := now + e.timeout, timeout := e.timeout * 2, nAcks := 0 } },
        some (best.opcode, best.payload))

/-- `reliable_schedule_now`. -/
def reliableScheduleNow (rel : Reliable) (now : Int) : Reliable :=
  { rel with
    hold := false
    entries := rel.entries.map fun e =>
      if e.active then { e with nextTry := now, timeout := rel.initialTimeout } else e }

/-- `reliable_mark_active_incoming` of the buffer of entry `i`; `none` when an `ASSERT` fails. -/
def reliableMarkActiveIncoming (rel : Reliable) (i : Nat) (pid : UInt32) (opcode : Int) :
    Option Reliable :=
  if i < rel.size then
    if reliablePidMin pid rel.packetId then none
    else some { rel with entries := rel.entries.modify i fun e =>
      { e with active := true, packetId := pid, opcode := opcode, nextTry := 0, timeout := 0,
               nAcks := 0 } }
  else none

/-- `reliable_mark_active_outgoing` of the buffer of entry `i`: the next packet id, prepended in
network order. -/
def reliableMarkActiveOutgoing (rel : Reliable) (i : Nat) (opcode : Int) : Option Reliable :=
  if i < rel.size then
    some { rel with
      packetId := rel.packetId + 1
      entries := rel.entries.modify i fun e =>
        { e with packetId := rel.packetId, payload := BigEndian.encode 4 rel.packetId.toNat ++ e.payload,
                 active := true, opcode := opcode, nextTry := 0, timeout := rel.initialTimeout } }
  else none

/-- `reliable_mark_deleted` of the buffer of entry `i`: the expected id moves past it. -/
def reliableMarkDeleted (rel : Reliable) (i : Nat) : Option Reliable :=
  match rel.entries[i]? with
  | none => none
  | some e => some { rel with packetId := e.packetId + 1, entries := rel.entries.set i { e with active := false } }

/-! ## The packet id helpers over natural numbers -/

theorem toNat_subtractPid (test base : UInt32) :
    (subtractPid test base).toNat = (2 ^ 32 - base.toNat + test.toNat) % 2 ^ 32 :=
  UInt32.toNat_sub test base

theorem reliablePidMin_iff (p1 p2 : UInt32) :
    reliablePidMin p1 p2 = true ↔ 2 ^ 31 ≤ (2 ^ 32 - p2.toNat + p1.toNat) % 2 ^ 32 := by
  simp only [reliablePidMin, reliablePidInRange1, Bool.not_eq_true', decide_eq_false_iff_not,
    UInt32.lt_iff_toNat_lt, toNat_subtractPid, not_lt]
  rfl

/-- `reliable_pid_in_range2` compares `test` with `base + extent` when the sum does not wrap, and
both shifted by `2^31` when it does. -/
theorem reliablePidInRange2_iff (test base extent : UInt32) :
    reliablePidInRange2 test base extent = true ↔
      if base.toNat + extent.toNat < 2 ^ 32 then test.toNat < base.toNat + extent.toNat
      else (test.toNat + 2 ^ 31) % 2 ^ 32 < ((base.toNat + 2 ^ 31) % 2 ^ 32 + extent.toNat) % 2 ^ 32 := by
  have hb := base.toNat_lt
  have he := extent.toNat_lt
  have hwrap : base + extent ≥ base ↔ base.toNat + extent.toNat < 2 ^ 32 := by
    rw [ge_iff_le, UInt32.le_iff_toNat_le, UInt32.toNat_add]
    constructor <;> intro h
    · by_contra hge
      rw [Nat.mod_eq_sub_mod (by omega), Nat.mod_eq_of_lt (by omega)] at h
      omega
    · rw [Nat.mod_eq_of_lt h]
      omega
  unfold reliablePidInRange2
  by_cases hlt : base.toNat + extent.toNat < 2 ^ 32
  · rw [if_pos (hwrap.mpr hlt), if_pos hlt, decide_eq_true_iff, UInt32.lt_iff_toNat_lt,
      UInt32.toNat_add, Nat.mod_eq_of_lt hlt]
  · rw [if_neg (fun h => hlt (hwrap.mp h)), if_neg hlt, decide_eq_true_iff, UInt32.lt_iff_toNat_lt,
      UInt32.toNat_add, UInt32.toNat_add, UInt32.toNat_add]
    rfl

/-- **The sequence checks of the receive side.** What `reliable_wont_break_sequentiality` and the
first test of `reliable_not_replay` admit together: the window of `size` ids from
`rel->packet_id`, and, when `rel->packet_id` lies in the upper half of the id space and the window
does not wrap, also every id more than `2^31` below it. -/
theorem reliableSequenceCheck_iff (rel : Reliable) (id : UInt32) (hsize : rel.size ≤ reliableCapacity) :
    (reliableWontBreakSequentiality rel id && !reliablePidMin id rel.packetId) = true ↔
      (2 ^ 32 - rel.packetId.toNat + id.toNat) % 2 ^ 32 < rel.size ∨
      (2 ^ 31 ≤ rel.packetId.toNat ∧ rel.packetId.toNat + rel.size < 2 ^ 32 ∧
        id.toNat + 2 ^ 31 < rel.packetId.toNat) := by
  have hsize' : (UInt32.ofNat rel.size).toNat = rel.size := by
    rw [UInt32.toNat_ofNat']
    exact Nat.mod_eq_of_lt (by unfold reliableCapacity at hsize; omega)
  have hb := rel.packetId.toNat_lt
  have hi := id.toNat_lt
  rw [Bool.and_eq_true, Bool.not_eq_true', ← Bool.not_eq_true, reliablePidMin_iff,
    reliableWontBreakSequentiality, reliablePidInRange2_iff, hsize']
  unfold reliableCapacity at hsize
  split_ifs <;> omega

/-! ## What the entry operations return -/

theorem reliableGetBuf_eq_some {rel rel' : Reliable} {i : Nat} (h : reliableGetBuf rel = some (rel', i)) :
    ∃ hi : i < rel.entries.length, rel.entries[i].active = false ∧
      (∀ j (hj : j < i), rel.entries[j].active = true) ∧
      rel' = { rel with entries := rel.entries.modify i fun e => { e with payload := [] } } := by
  unfold reliableGetBuf at h
  cases hf : rel.entries.findIdx? fun e => !e.active with
  | none =>
      rw [hf] at h
      cases h
  | some k =>
      rw [hf, Option.some.injEq, Prod.mk.injEq] at h
      obtain ⟨rfl, rfl⟩ := h
      obtain ⟨hk, hfree, hbefore⟩ := List.findIdx?_eq_some_iff_getElem.mp hf
      exact ⟨hk, by simpa using hfree, fun j hj => by simpa using hbefore j hj, rfl⟩

/-- A free entry is found whenever `reliable_can_get` says there is one. -/
theorem reliableGetBuf_of_canGet {rel : Reliable} (h : reliableCanGet rel = true) :
    ∃ rel' i, reliableGetBuf rel = some (rel', i) := by
  unfold reliableGetBuf
  cases hf : rel.entries.findIdx? fun e => !e.active with
  | none =>
      obtain ⟨e, he, hfree⟩ := List.any_eq_true.mp h
      exact absurd (List.findIdx?_eq_none_iff.mp hf e he) (by simp only [hfree]; decide)
  | some i => exact ⟨_, i, rfl⟩

theorem reliableGetEntrySequenced_eq_some {rel : Reliable} {i : Nat}
    (h : reliableGetEntrySequenced rel = some i) :
    ∃ hi : i < rel.entries.length, rel.entries[i].active = true ∧ rel.entries[i].packetId = rel.packetId := by
  obtain ⟨hi, hmatch, -⟩ := List.findIdx?_eq_some_iff_getElem.mp h
  simp only [Bool.and_eq_true, beq_iff_eq] at hmatch
  exact ⟨hi, hmatch⟩

theorem reliableGetEntrySequenced_eq_none_iff {rel : Reliable} :
    reliableGetEntrySequenced rel = none ↔
      ∀ e ∈ rel.entries, ¬(e.active = true ∧ e.packetId = rel.packetId) := by
  unfold reliableGetEntrySequenced
  rw [List.findIdx?_eq_none_iff]
  simp

theorem reliableMarkDeleted_eq_some {rel rel' : Reliable} {i : Nat} (h : reliableMarkDeleted rel i = some rel') :
    ∃ hi : i < rel.entries.length, rel' = { rel with
      packetId := (rel.entries[i]).packetId + 1
      entries := rel.entries.set i { rel.entries[i] with active := false } } := by
  unfold reliableMarkDeleted at h
  by_cases hi : i < rel.entries.length
  · rw [List.getElem?_eq_getElem hi, Option.some.injEq] at h
    exact ⟨hi, h.symm⟩
  · rw [List.getElem?_eq_none (by omega)] at h
    cases h

theorem reliableMarkDeleted_of_lt {rel : Reliable} {i : Nat} (hi : i < rel.entries.length) :
    reliableMarkDeleted rel i = some { rel with
      packetId := (rel.entries[i]).packetId + 1
      entries := rel.entries.set i { rel.entries[i] with active := false } } := by
  unfold reliableMarkDeleted
  rw [List.getElem?_eq_getElem hi]

end OpenVpn
