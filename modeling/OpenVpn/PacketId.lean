import OpenVpn.CircList

/-! The receive side of `packet_id.c`: the record that `crypto_check_replay` keeps per data channel
key to refuse replayed packets. In UDP mode (`seq_backtrack ≠ 0`) the record keeps a window of
`seq_backtrack` slots below the highest id `id` seen at the current time `time`; a slot holds
`SEQ_UNSEEN`, `SEQ_EXPIRED` or the time the id was accepted. In TCP mode there is no window and the
ids must follow each other. Times are `time_t` values, read as integers: they are only compared,
and the one sum `t + time_backtrack` of `packet_id_reap` adds at most 600 to a past clock value. -/

namespace OpenVpn

-- `SEQ_UNSEEN`: a window slot for an id that has not been accepted; `SEQ_EXPIRED`: a window slot
-- for an id too old for `time_backtrack`
def seqUnseen : Int := 0

def seqExpired : Int := 1

def minSeqBacktrack : Int := 0
def maxSeqBacktrack : Int := 65536
def minTimeBacktrack : Int := 0
def maxTimeBacktrack : Int := 600

-- `SEQ_REAP_INTERVAL`: seconds between two reap passes
def seqReapInterval : Int := 5

/-- `struct packet_id_net`: the id and time of a received packet. -/
structure PacketIdNet where
  id : UInt64
  time : Int
  deriving DecidableEq, Repr

/-- `packet_id_init` allocates the window exactly in UDP mode, with `seq_backtrack` slots, and
leaves `time_backtrack` at zero in TCP mode. -/
def SeqListFits (seqList : Option (CircList Int)) (seqBacktrack : UInt64) (timeBacktrack : Int) :
    Prop :=
  match seqList with
  | some seq => seqBacktrack ≠ 0 ∧ seq.cap = seqBacktrack.toNat
  | none => seqBacktrack = 0 ∧ timeBacktrack = 0

/-- `struct packet_id_rec`. The debug statistic `max_backtrack_stat`, the `initialized` flag and the
log name are not kept: nothing but logging and an assertion reads them. -/
structure PacketIdRec where
  lastReap : Int
  time : Int
  id : UInt64
  seqBacktrack : UInt64
  timeBacktrack : Int
  seqList : Option (CircList Int)
  seqList_fits : SeqListFits seqList seqBacktrack timeBacktrack

namespace PacketIdRec

theorem seqList_isSome (p : PacketIdRec) (h : p.seqBacktrack ≠ 0) : p.seqList.isSome := by
  have hf := p.seqList_fits
  cases hs : p.seqList with
  | some seq => rfl
  | none => rw [hs] at hf; exact absurd hf.1 h

/-- The window of a record in UDP mode. -/
def window (p : PacketIdRec) (h : p.seqBacktrack ≠ 0) : CircList Int :=
  p.seqList.get (p.seqList_isSome h)

theorem seqList_eq_window (p : PacketIdRec) (h : p.seqBacktrack ≠ 0) :
    p.seqList = some (p.window h) := by
  simp [window]

theorem seqBacktrack_ne_zero_of_some (p : PacketIdRec) {seq : CircList Int}
    (hs : p.seqList = some seq) : p.seqBacktrack ≠ 0 := by
  have hf := p.seqList_fits
  rw [hs] at hf
  exact hf.1

theorem cap_of_some (p : PacketIdRec) {seq : CircList Int} (hs : p.seqList = some seq) :
    seq.cap = p.seqBacktrack.toNat := by
  have hf := p.seqList_fits
  rw [hs] at hf
  exact hf.2

theorem timeBacktrack_eq_zero_of_none (p : PacketIdRec) (hs : p.seqList = none) :
    p.timeBacktrack = 0 := by
  have hf := p.seqList_fits
  rw [hs] at hf
  exact hf.2

theorem seqBacktrack_ne_zero_of_timeBacktrack (p : PacketIdRec) (h : p.timeBacktrack ≠ 0) :
    p.seqBacktrack ≠ 0 := by
  intro hz
  have hf := p.seqList_fits
  cases hs : p.seqList with
  | some seq => rw [hs] at hf; exact hf.1 hz
  | none => exact h (p.timeBacktrack_eq_zero_of_none hs)

/-- The record with a new time, highest id and window of the same capacity. -/
def withWindow (p : PacketIdRec) (time : Int) (id : UInt64) (seq : CircList Int)
    (hsb : p.seqBacktrack ≠ 0) (hcap : seq.cap = p.seqBacktrack.toNat) : PacketIdRec where
  lastReap := p.lastReap
  time := time
  id := id
  seqBacktrack := p.seqBacktrack
  timeBacktrack := p.timeBacktrack
  seqList := some seq
  seqList_fits := ⟨hsb, hcap⟩

end PacketIdRec

/-- `packet_id_init` (with `packet_id_init_recv`) on the receive record; `none` when one of its
assertions fails. -/
def packetIdInit (seqBacktrack timeBacktrack : Int) : Option PacketIdRec :=
  if hz : seqBacktrack = 0 then
    some ⟨0, 0, 0, 0, 0, none, ⟨rfl, rfl⟩⟩
  else if h : minSeqBacktrack ≤ seqBacktrack ∧ seqBacktrack ≤ maxSeqBacktrack ∧
      minTimeBacktrack ≤ timeBacktrack ∧ timeBacktrack ≤ maxTimeBacktrack then
    some ⟨0, 0, 0, UInt64.ofNat seqBacktrack.toNat, timeBacktrack,
      some (CircList.alloc seqBacktrack.toNat (by simp only [minSeqBacktrack] at h; omega) seqUnseen),
      by
        have hlt : seqBacktrack.toNat < 2 ^ 64 := by simp only [maxSeqBacktrack] at h; omega
        refine ⟨?_, ?_⟩
        · rw [Ne, ← UInt64.toNat_inj, UInt64.toNat_ofNat_of_lt' hlt]
          simp only [minSeqBacktrack] at h
          simp; omega
        · rw [CircList.cap_alloc, UInt64.toNat_ofNat_of_lt' hlt]⟩
  else none

/-- Adding one to a `uint64_t` below its maximum does not wrap. -/
theorem UInt64.toNat_add_one_of_lt {x : UInt64} (h : x.toNat < 2 ^ 64 - 1) : (x + 1).toNat = x.toNat + 1 := by
  rw [UInt64.toNat_add, UInt64.toNat_one, Nat.mod_eq_of_lt (by omega)]

/-- The `while (p->id < pin->id)` loop of `packet_id_add`: one `SEQ_UNSEEN` slot per skipped id. -/
def pushUnseen (seq : CircList Int) (id target : UInt64) : CircList Int × UInt64 :=
  if h : id < target then pushUnseen (seq.push seqUnseen) (id + 1) target else (seq, id)
termination_by target.toNat - id.toNat
decreasing_by
  rw [UInt64.lt_iff_toNat_lt] at h
  have := target.toNat_lt
  rw [UInt64.toNat_add_one_of_lt (by omega)]
  omega

theorem cap_pushUnseen (seq : CircList Int) (id target : UInt64) :
    (pushUnseen seq id target).1.cap = seq.cap := by
  fun_induction pushUnseen seq id target with
  | case1 seq id h ih => rw [ih, CircList.cap_push]
  | case2 seq id h => rfl

theorem cap_reset_ite (seq : CircList Int) (b : Bool) :
    (if b then seq.reset else seq).cap = seq.cap := by
  cases b <;> rfl

/-- The condition on which `packet_id_add` starts a new window: the window is empty, the time moved
forward, or the id is more than `seq_backtrack` ahead of the highest one. -/
def startsNewList (p : PacketIdRec) (seq : CircList Int) (pin : PacketIdNet) : Bool :=
  decide (seq.size = 0) || decide (p.time < pin.time) ||
    (decide (p.seqBacktrack ≤ pin.id) && decide (p.id < pin.id - p.seqBacktrack))

/-- `packet_id_add`; `none` when `index_verify` aborts on the slot of the new id. The
difference `diff` is an `int64_t`, the `uint64_t` difference read as a signed value. -/
def packetIdAdd (p : PacketIdRec) (pin : PacketIdNet) (now : Int) : Option PacketIdRec :=
  match hs : p.seqList with
  | some seq =>
      let reset := startsNewList p seq pin
      let time := if reset then pin.time else p.time
      let id₀ := if reset then (if p.seqBacktrack < pin.id then pin.id - p.seqBacktrack else 0)
        else p.id
      let pushed := pushUnseen (if reset then seq.reset else seq) id₀ pin.id
      let diff := (pushed.2 - pin.id).toBitVec.toInt
      let hsb := p.seqBacktrack_ne_zero_of_some hs
      if diff < pushed.1.size ∧ seqExpired < now then
        if 0 ≤ diff then
          some (p.withWindow time pushed.2 (pushed.1.setItem diff.toNat now) hsb
            (by rw [CircList.cap_setItem, cap_pushUnseen, cap_reset_ite, p.cap_of_some hs]))
        else none
      else some (p.withWindow time pushed.2 pushed.1 hsb
        (by rw [cap_pushUnseen, cap_reset_ite, p.cap_of_some hs]))
  | none => some { p with time := pin.time, id := pin.id }

/-- The loop of `packet_id_reap` from item `i` on, with `n` items left: from the first accepted slot
older than `time_backtrack` on, every slot is marked `SEQ_EXPIRED`, up to the first slot that
already is. -/
def packetIdReapLoop (timeBacktrack now : Int) : CircList Int → Bool → Nat → Nat → CircList Int
  | seq, _, _, 0 => seq
  | seq, expire, i, n + 1 =>
      let t := seq.item i
      if t = seqExpired then seq
      else
        let expire := expire || (decide (t ≠ seqUnseen) && decide (t + timeBacktrack < now))
        packetIdReapLoop timeBacktrack now (if expire then seq.setItem i seqExpired else seq)
          expire (i + 1) n

theorem cap_packetIdReapLoop (timeBacktrack now : Int) (seq : CircList Int) (expire : Bool)
    (i n : Nat) : (packetIdReapLoop timeBacktrack now seq expire i n).cap = seq.cap := by
  induction n generalizing seq expire i with
  | zero => rfl
  | succ n ih =>
      simp only [packetIdReapLoop]
      split_ifs
      · rfl
      · rw [ih, CircList.cap_setItem]
      · rw [ih]

/-- `packet_id_reap`. -/
def packetIdReap (p : PacketIdRec) (now : Int) : PacketIdRec :=
  if h : p.timeBacktrack ≠ 0 then
    let hsb := p.seqBacktrack_ne_zero_of_timeBacktrack h
    let seq := p.window hsb
    { p.withWindow p.time p.id
        (packetIdReapLoop p.timeBacktrack now seq false 0 seq.size) hsb
        (by rw [cap_packetIdReapLoop, p.cap_of_some (p.seqList_eq_window hsb)]) with
      lastReap := now }
  else { p with lastReap := now }

/-- `packet_id_reap_test`: reap at most every `SEQ_REAP_INTERVAL` seconds. -/
def packetIdReapTest (p : PacketIdRec) (now : Int) : PacketIdRec :=
  if p.lastReap + seqReapInterval ≤ now then packetIdReap p now else p

/-- `packet_id_test`: is the packet id not a replay? In UDP mode `CIRC_LIST_SIZE` is cast to the
32-bit `packet_id_type` for the window check; in TCP mode `p->id + 1` wraps as a `uint64_t`. -/
def packetIdTest (p : PacketIdRec) (pin : PacketIdNet) : Bool :=
  if pin.id = 0 then false
  else if h : p.seqBacktrack ≠ 0 then
    if pin.time = p.time then
      if p.id < pin.id then true
      else
        let diff := p.id - pin.id
        let seq := p.window h
        if seq.size % 2 ^ 32 ≤ diff.toNat then false
        else seq.item diff.toNat = seqUnseen
    else if pin.time < p.time then false
    else true
  else
    if pin.time = p.time then p.id = 0 || pin.id = p.id + 1
    else if pin.time < p.time then false
    else pin.id = 1

/-- `crypto_check_replay` on the receive record: the reap test, then the replay test, and the add
only for an id that passed. The verdict is whether the packet is accepted; `none` is an abort. -/
def cryptoCheckReplay (p : PacketIdRec) (pin : PacketIdNet) (now : Int) :
    Option (PacketIdRec × Bool) :=
  let p := packetIdReapTest p now
  if packetIdTest p pin then (packetIdAdd p pin now).map fun p => (p, true)
  else some (p, false)

/-- `crypto_check_replay` on every packet of a run, each with the clock `now` at its arrival. -/
def cryptoCheckReplayRun (p : PacketIdRec) : List (Int × PacketIdNet) → Option (PacketIdRec × List Bool)
  | [] => some (p, [])
  | (now, pin) :: rest =>
      match cryptoCheckReplay p pin now with
      | some (p, ok) => (cryptoCheckReplayRun p rest).map fun r => (r.1, ok :: r.2)
      | none => none

/-- The packets of a run that were accepted, in arrival order. -/
def acceptedPins : List (Int × PacketIdNet) → List Bool → List PacketIdNet
  | (_, pin) :: rest, ok :: oks => if ok then pin :: acceptedPins rest oks else acceptedPins rest oks
  | _, _ => []

end OpenVpn
