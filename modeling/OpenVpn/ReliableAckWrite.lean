import OpenVpn.ReliableAck
import OpenVpn.MoveToFront

/-! The writer of the acknowledgement record, `reliable_ack_write` in `reliable.c`, and the list of
recently sent acks it keeps, `copy_acks_to_mru`. The writer moves the acks it sends now to the
front of `ack_mru`, writes the first `min(max, ack_mru.len)` ids of it, and drops the acks it sent
from `ack`. `copy_acks_to_mru` is a move-to-front list of at most `RELIABLE_ACK_SIZE` ids
(`copyAckToMru_eq`). The record goes into the sub-buffer `buf_sub` takes from `buf`; the model
returns the bytes written into it. `max` is a natural number: every caller passes a positive
constant. -/

namespace OpenVpn

/-! ### The list of recent acks -/

/-- The inner loop of `copy_acks_to_mru` from the slot that takes `move`: every slot takes the id
moved out of the slot before it, until the id moved out is `id` itself. The slots, and the id
moved out of the last slot when `id` was not found. -/
def mruShift (id : UInt32) : UInt32 → List UInt32 → List UInt32 × Option UInt32
  | move, [] => ([], some move)
  | move, tmp :: rest =>
      if tmp = id then (move :: rest, none)
      else
        let r := mruShift id tmp rest
        (move :: r.1, r.2)

/-- One round of the loop of `copy_acks_to_mru`: `id` goes to the front of `ack_mru`. -/
def copyAckToMru (mru : List UInt32) (id : UInt32) : List UInt32 :=
  -- the special case of an empty `ack_mru`
  let mru := if mru = [] then [id] else mru
  match mruShift id id mru with
  | (mru, none) => mru
  | (mru, some move) => if mru.length < reliableAckSize then mru ++ [move] else mru

/-- `copy_acks_to_mru(ack, ack_mru, n)`: the first `n` acks, the last first, so that they end up at
the front of `ack_mru` in the order of `ack`. -/
def copyAcksToMru (ack mru : List UInt32) (n : Nat) : Option (List UInt32) :=
  if ack.length < n then none
  else some ((ack.take n).foldr (fun id mru => copyAckToMru mru id) mru)

/-- Shifting up to the slot that holds `id` removes it. -/
theorem mruShift_of_mem {id : UInt32} : ∀ {move : UInt32} {l : List UInt32}, id ∈ l →
    mruShift id move l = (move :: l.erase id, none)
  | _, [], h => absurd h List.not_mem_nil
  | move, tmp :: rest, h => by
      by_cases htmp : tmp = id
      · rw [mruShift, if_pos htmp, htmp, List.erase_cons_head]
      · have hrest : id ∈ rest := (List.mem_cons.mp h).resolve_left (Ne.symm htmp)
        rw [mruShift, if_neg htmp, mruShift_of_mem hrest,
          List.erase_cons_tail (by simpa using htmp)]

/-- Without `id`, every slot shifts and the last id falls out. -/
theorem mruShift_of_not_mem {id : UInt32} : ∀ (move : UInt32) {l : List UInt32}, id ∉ l →
    ∃ p last, mruShift id move l = (p, some last) ∧ p ++ [last] = move :: l ∧
      p.length = l.length
  | move, [], _ => ⟨[], move, rfl, rfl, rfl⟩
  | move, tmp :: rest, h => by
      have htmp : tmp ≠ id := fun he => h (he ▸ List.mem_cons_self)
      obtain ⟨p, last, hshift, happ, hlen⟩ :=
        mruShift_of_not_mem tmp fun hr => h (List.mem_cons_of_mem _ hr)
      refine ⟨move :: p, last, ?_, ?_, by simp [hlen]⟩
      · rw [mruShift, if_neg htmp, hshift]
      · rw [List.cons_append, happ]

/-- `copy_acks_to_mru` on one id is move-to-front over at most `RELIABLE_ACK_SIZE` slots. -/
theorem copyAckToMru_eq {mru : List UInt32} (hlen : mru.length ≤ reliableAckSize) (id : UInt32) :
    copyAckToMru mru id = (id :: mru.erase id).take reliableAckSize := by
  unfold copyAckToMru
  by_cases hnil : mru = []
  · subst hnil
    simp [mruShift, reliableAckSize]
  · rw [if_neg hnil]
    dsimp only
    by_cases hmem : id ∈ mru
    · have hkeep : (id :: mru.erase id).length ≤ reliableAckSize := by
        rw [List.length_cons, List.length_erase_of_mem hmem]
        have := List.length_pos_of_mem hmem
        omega
      rw [mruShift_of_mem hmem, List.take_of_length_le hkeep]
    · obtain ⟨p, last, hshift, happ, hplen⟩ := mruShift_of_not_mem id hmem
      rw [hshift, List.erase_of_not_mem hmem]
      dsimp only
      split_ifs with hroom
      · rw [happ, List.take_of_length_le (by simp; omega)]
      · -- a full list: the last id falls out
        have hp : p.length = reliableAckSize := by omega
        rw [← happ, List.take_left' hp]

/-- Erasing an id that is not among the first `k` leaves them. -/
theorem take_erase_of_not_mem {a : UInt32} : ∀ {k : Nat} {l : List UInt32}, a ∉ l.take k →
    (l.erase a).take k = l.take k
  | 0, _, _ => rfl
  | _ + 1, [], _ => rfl
  | k + 1, x :: l, h => by
      have hx : x ≠ a := fun he => h (by simp [he])
      rw [List.erase_cons_tail (by simpa using hx), List.take_succ_cons, List.take_succ_cons,
        take_erase_of_not_mem fun hl => h (by simp [hl])]

/-- The acks moved to the front of `ack_mru`, the last first, stand at its front in their order;
the list stays within `RELIABLE_ACK_SIZE`. -/
theorem take_foldr_copyAckToMru {mru : List UInt32} (hmru : mru.length ≤ reliableAckSize) :
    ∀ {l : List UInt32}, l.Nodup → l.length ≤ reliableAckSize →
      (l.foldr (fun id mru => copyAckToMru mru id) mru).take l.length = l ∧
        (l.foldr (fun id mru => copyAckToMru mru id) mru).length ≤ reliableAckSize
  | [], _, _ => ⟨rfl, hmru⟩
  | a :: l, hnd, hl => by
      obtain ⟨ha, hnd'⟩ := List.nodup_cons.mp hnd
      obtain ⟨htake, hlen⟩ := take_foldr_copyAckToMru hmru hnd' (by simp at hl; omega)
      rw [List.foldr_cons, copyAckToMru_eq hlen]
      refine ⟨?_, List.length_take_le _ _⟩
      -- `a` is not among the first `l.length` slots, which hold `l`
      have hnot : a ∉ (l.foldr (fun id mru => copyAckToMru mru id) mru).take l.length := by
        rw [htake]
        exact ha
      rw [List.take_take, min_eq_left hl, List.length_cons, List.take_succ_cons,
        take_erase_of_not_mem hnot, htake]

/-- The acks pushed, the last first, onto a list of distinct recent acks leave the first
`RELIABLE_ACK_SIZE` distinct ids of the acks and then of the list. -/
theorem foldr_copyAckToMru_eq_eraseDups {mru : List UInt32} (hnd : mru.Nodup)
    (hlen : mru.length ≤ reliableAckSize) : ∀ l : List UInt32,
      l.foldr (fun id mru => copyAckToMru mru id) mru = (l ++ mru).eraseDups.take reliableAckSize
  | [] => by
      rw [List.foldr_nil, List.nil_append, MoveToFront.eraseDups_of_nodup hnd,
        List.take_of_length_le hlen]
  | a :: l => by
      -- the list the push starts from is a prefix cut at `RELIABLE_ACK_SIZE`
      rw [List.foldr_cons, foldr_copyAckToMru_eq_eraseDups hnd hlen l,
        copyAckToMru_eq (List.length_take_le _ _), List.cons_append,
        MoveToFront.push_take_eraseDups]

/-- `copy_acks_to_mru(ack, ack_mru, n)` is move-to-front with capacity `RELIABLE_ACK_SIZE`: a list
of distinct recent acks becomes the first `RELIABLE_ACK_SIZE` distinct ids of the first `n` acks
and then of the old list, so it stays free of duplicates and within its capacity. -/
theorem copy_acks_to_mru_move_to_front {ack mru : List UInt32} {n : Nat} (hnd : mru.Nodup)
    (hlen : mru.length ≤ reliableAckSize) (hn : n ≤ ack.length) :
    copyAcksToMru ack mru n = some ((ack.take n ++ mru).eraseDups.take reliableAckSize) ∧
      ((ack.take n ++ mru).eraseDups.take reliableAckSize).Nodup ∧
      ((ack.take n ++ mru).eraseDups.take reliableAckSize).length ≤ reliableAckSize := by
  refine ⟨?_, (MoveToFront.nodup_eraseDups _).sublist (List.take_sublist _ _),
    List.length_take_le _ _⟩
  rw [copyAcksToMru, if_neg (by omega), foldr_copyAckToMru_eq_eraseDups hnd hlen]

/-- Acks `[1, 2, 1, 3]` in front of the full list `[3, …, 10]`: the repeated `1` and the `3`
already there take one slot each, and `9` and `10` drop out. -/
theorem copy_acks_to_mru_move_to_front_repeats :
    (([1, 2, 1, 3] : List UInt32).take 4 ++ [3, 4, 5, 6, 7, 8, 9, 10]).eraseDups.take
        reliableAckSize = [1, 2, 3, 4, 5, 6, 7, 8] ∧
      (copyAcksToMru [1, 2, 1, 3] [3, 4, 5, 6, 7, 8, 9, 10] 4 =
          some ((([1, 2, 1, 3] : List UInt32).take 4 ++ [3, 4, 5, 6, 7, 8, 9, 10]).eraseDups.take
            reliableAckSize) ∧
        ((([1, 2, 1, 3] : List UInt32).take 4 ++ [3, 4, 5, 6, 7, 8, 9, 10]).eraseDups.take
          reliableAckSize).Nodup ∧
        ((([1, 2, 1, 3] : List UInt32).take 4 ++ [3, 4, 5, 6, 7, 8, 9, 10]).eraseDups.take
          reliableAckSize).length ≤ reliableAckSize) :=
  ⟨by decide, copy_acks_to_mru_move_to_front (by decide) (by decide) (by decide)⟩

/-! ### Reading a written record back -/

/-- The bytes of a list of ids, each `htonpid`. -/
def ackIdBytes (ids : List UInt32) : List UInt8 := ids.flatMap fun id => BigEndian.encode 4 id.toNat

@[simp] theorem ackIdBytes_nil : ackIdBytes [] = [] := rfl

@[simp] theorem ackIdBytes_cons (id : UInt32) (ids : List UInt32) :
    ackIdBytes (id :: ids) = BigEndian.encode 4 id.toNat ++ ackIdBytes ids := rfl

theorem length_ackIdBytes (ids : List UInt32) : (ackIdBytes ids).length = 4 * ids.length := by
  induction ids with
  | nil => rfl
  | cons id ids ih =>
      rw [ackIdBytes_cons, List.length_append, BigEndian.length_encode, ih, List.length_cons]
      omega

/-- The loop of `reliable_ack_parse` over the bytes of `ids` reads them back. -/
theorem reliableAckParseLoop_encode {buf : Buffer} (hb : BufBounded buf) (acks ids : List UInt32)
    (hlen : acks.length + ids.length ≤ reliableAckSize) {rest : List UInt8}
    (hc : buf.content = ackIdBytes ids ++ rest) :
    ∃ buf', reliableAckParseLoop buf acks ids.length = some (buf', acks ++ ids, true) ∧
      BufBounded buf' ∧ buf'.content = rest := by
  induction ids generalizing buf acks with
  | nil => exact ⟨buf, by simp [reliableAckParseLoop], hb, by simpa using hc⟩
  | cons id ids ih =>
      have henc := BigEndian.length_encode 4 id.toNat
      obtain ⟨b₁, hread, hb₁, hcontent⟩ := hb.bufRead_cursor 4
      have h4 : 4 ≤ buf.content.length := by
        rw [hc, ackIdBytes_cons, List.append_assoc, List.length_append, henc]
        omega
      rw [if_pos h4, hc, ackIdBytes_cons, List.append_assoc, List.take_left' henc] at hread
      rw [if_pos h4, hc, ackIdBytes_cons, List.append_assoc, List.drop_left' henc] at hcontent
      rw [List.length_cons]
      unfold reliableAckParseLoop
      rw [show ((4 : Nat) : Int) = 4 from rfl] at hread
      rw [hread]
      simp only [Option.bind_eq_bind, Option.bind_some]
      have hroom : ¬acks.length ≥ reliableAckSize := by
        simp only [List.length_cons] at hlen
        omega
      rw [if_neg hroom, BigEndian.decode_encode 4 _ (by have := id.toNat_lt; omega),
        UInt32.ofNat_toNat]
      obtain ⟨buf', hloop, hb', hc'⟩ := ih hb₁ (acks ++ [id]) (by simp at hlen ⊢; omega) hcontent
      refine ⟨buf', ?_, hb', hc'⟩
      rw [hloop, List.append_assoc, List.singleton_append]

/-- `reliable_ack_parse` reads back a record: the count, the ids and, after a nonzero count,
the session id. -/
theorem reliableAckParse_encode {buf : Buffer} (hb : BufBounded buf) (ids : List UInt32)
    (hlen : ids.length ≤ reliableAckSize) {sid : List UInt8} (hsid : sid.length = sidSize)
    (sessionIdRemote : List UInt8) {rest : List UInt8}
    (hc : buf.content = UInt8.ofNat ids.length ::
      (ackIdBytes ids ++ ((if ids = [] then [] else sid) ++ rest))) :
    ∃ buf', reliableAckParse buf sessionIdRemote =
        some (buf', ids, (if ids = [] then sessionIdRemote else sid), true) ∧
      BufBounded buf' ∧ buf'.content = rest := by
  have hcount : (UInt8.ofNat ids.length).toNat = ids.length :=
    UInt8.toNat_ofNat_of_lt' (by have : UInt8.size = 256 := rfl; unfold reliableAckSize at hlen; omega)
  obtain ⟨b₁, hread, hb₁, hcontent⟩ := hb.bufRead_cursor 1
  rw [if_pos (by rw [hc]; simp), hc, List.take_succ_cons, List.take_zero] at hread
  rw [if_pos (by rw [hc]; simp), hc, List.drop_succ_cons, List.drop_zero] at hcontent
  unfold reliableAckParse
  rw [show ((1 : Nat) : Int) = 1 from rfl] at hread
  rw [hread]
  simp only [Option.bind_eq_bind, Option.bind_some]
  have hdecode : BigEndian.decode [UInt8.ofNat ids.length] = ids.length := by
    simp [BigEndian.decode, hcount]
  rw [hdecode]
  obtain ⟨b₂, hloop, hb₂, hc₂⟩ := reliableAckParseLoop_encode hb₁ [] ids (by simpa using hlen)
    hcontent
  rw [hloop]
  simp only [Option.bind_some, List.nil_append, Bool.not_true, Bool.false_eq_true, if_false]
  by_cases hnil : ids = []
  · -- no ids: the session id is not read
    subst hnil
    refine ⟨b₂, by simp, hb₂, by simpa using hc₂⟩
  · have hne : ids.length ≠ 0 := fun h => hnil (List.eq_nil_of_length_eq_zero h)
    rw [if_pos hne]
    simp only [hnil, if_false] at hc₂ ⊢
    obtain ⟨b₃, hread₃, hb₃, hc₃⟩ := hb₂.bufRead_cursor sidSize
    rw [if_pos (by rw [hc₂]; simp [hsid]), hc₂, List.take_left' hsid] at hread₃
    rw [if_pos (by rw [hc₂]; simp [hsid]), hc₂, List.drop_left' hsid] at hc₃
    rw [hread₃]
    exact ⟨b₃, rfl, hb₃, hc₃⟩

/-! ### The writer -/

/-- `ACK_SIZE(n)`: the count byte, the session id for a nonzero count, and the ids. -/
def ackSize (n : Nat) : Nat := 1 + (if n = 0 then 0 else sidSize) + 4 * n

/-- `session_id_defined`: the id is not the zero id. -/
def sessionIdDefined (sid : List UInt8) : Bool := sid != List.replicate sidSize 0

/-- A `buf_write` of `size` bytes of `src` under `ASSERT`: `none` where the write fails. -/
def bufWriteAssert (b : Buffer) (src : List UInt8) (size : Nat) : Option Buffer :=
  match bufWrite b src 0 size with
  | some (b, true) => some b
  | _ => none

/-- The loop of `reliable_ack_write` over the ids it sends, each `htonpid` and written under
`ASSERT`. -/
def writeAckIds (sub : Buffer) : List UInt32 → Option Buffer
  | [] => some sub
  | pid :: pids =>
      (bufWriteAssert sub (BigEndian.encode 4 pid.toNat) 4).bind fun sub => writeAckIds sub pids

/-- `reliable_ack_write(ack, ack_mru, buf, sid, max, prepend)`: `ack` and `ack_mru` after the
call, the parent buffer after `buf_sub`, the bytes written into the sub-buffer, and the result. -/
def reliableAckWrite (ack mru : List UInt32) (buf : Buffer) (sid : List UInt8) (max : Nat)
    (prepend : Bool) : Option (List UInt32 × List UInt32 × Buffer × List UInt8 × Bool) :=
  let n := min ack.length max
  (copyAcksToMru ack mru n).bind fun mru =>
    let totalAcks : UInt8 := UInt8.ofNat (min max mru.length)
    let r := bufSub buf (ackSize totalAcks.toNat) prepend
    if r.2.data = none then some (ack, mru, r.1, [], false)
    else do
      let sub ← bufWriteAssert r.2 [totalAcks] 1
      let sub ← writeAckIds sub (mru.take totalAcks.toNat)
      let sub ← if totalAcks ≠ 0 then
          if sessionIdDefined sid then bufWriteAssert sub sid sidSize else none
        else some sub
      -- the acks sent now leave `ack`
      some (if n ≠ 0 then ack.drop n else ack, mru, r.1, sub.content, true)

/-- A write with room appends. -/
theorem bufWriteAssert_append {b : Buffer} (hb : BufBounded b) {src : List UInt8}
    (hroom : b.offset + b.len + src.length ≤ b.capacity) :
    bufWriteAssert b src src.length = some (b.append src) := by
  have hcap := hb.capacity_lt
  have := hb.offset_nonneg
  have := hb.len_nonneg
  rw [bufWriteAssert, hb.bufWrite_eq_append (by omega) hroom]

/-- The ids go in one after the other while there is room for all of them. -/
theorem writeAckIds_append {sub : Buffer} (hb : BufBounded sub) :
    ∀ (pids : List UInt32), sub.offset + sub.len + 4 * pids.length ≤ sub.capacity →
      ∃ sub', writeAckIds sub pids = some sub' ∧ BufBounded sub' ∧
        sub'.content = sub.content ++ ackIdBytes pids ∧ sub'.offset = sub.offset ∧
        sub'.len = sub.len + 4 * pids.length ∧ sub'.capacity = sub.capacity
  | [], _ => ⟨sub, rfl, hb, by simp, rfl, by simp, rfl⟩
  | pid :: pids, hroom => by
      have henc := BigEndian.length_encode 4 pid.toNat
      have hroom₁ : sub.offset + sub.len + (BigEndian.encode 4 pid.toNat).length ≤ sub.capacity := by
        rw [henc]
        simp only [List.length_cons] at hroom
        omega
      have hw : bufWriteAssert sub (BigEndian.encode 4 pid.toNat) 4 =
          some (sub.append (BigEndian.encode 4 pid.toNat)) := by
        rw [← bufWriteAssert_append hb hroom₁, henc]
      obtain ⟨sub', hloop, hb', hc', hoff, hlen, hcap⟩ := writeAckIds_append (hb.append_bounded hroom₁)
        pids (by simp only [Buffer.offset_append, Buffer.len_append, Buffer.capacity_append, henc,
          List.length_cons] at hroom ⊢; omega)
      refine ⟨sub', by rw [writeAckIds, hw, Option.bind_some, hloop], hb', ?_, hoff, ?_, hcap⟩
      · rw [hc', hb.content_append hroom₁, ackIdBytes_cons, List.append_assoc]
      · rw [hlen, Buffer.len_append, henc, List.length_cons]
        omega

/-- The sub-buffer `buf_sub` returns, when it has memory, is empty, of the size asked for. -/
theorem bufSub_snd_fields {b : Buffer} {size : Int} {prepend : Bool}
    (h : (bufSub b size prepend).2.data ≠ none) :
    (bufSub b size prepend).2.offset = 0 ∧ (bufSub b size prepend).2.len = 0 ∧
      (bufSub b size prepend).2.capacity = size := by
  unfold bufSub at h ⊢
  dsimp only at h ⊢
  generalize (if prepend then bufPrepend b size else bufWriteAlloc b (sizeOfInt size)) = r at h ⊢
  rcases r with ⟨b', _ | cp⟩
  · exact absurd rfl h
  · exact ⟨rfl, rfl, rfl⟩

/-- Dropping the acks sent only when there are some drops nothing otherwise. -/
theorem drop_of_ne_zero_ite {α : Type} (n : Nat) (l : List α) :
    (if n ≠ 0 then l.drop n else l) = l.drop n := by
  by_cases h : n = 0
  · rw [if_neg (not_not_intro h), h, List.drop_zero]
  · rw [if_pos h]

/-- What `reliable_ack_write` does with a defined session id and `ack_mru` within
`RELIABLE_ACK_SIZE`: it moves the acks sent now to the front of `ack_mru`, and either `buf_sub`
fails and `ack` stays, or the record of the first `min(max, ack_mru.len)` ids of the new `ack_mru`
is written and the acks sent leave `ack`. The parent buffer is the one `buf_sub` leaves, and the
record is written exactly when `buf_sub` finds room. No `ASSERT` fires. -/
theorem reliableAckWrite_spec {ack mru : List UInt32} {max : Nat}
    (hmru' : ((ack.take (min ack.length max)).foldr (fun id mru => copyAckToMru mru id) mru).length ≤
      reliableAckSize)
    {sid : List UInt8} (hsid : sid.length = sidSize) (hdef : sessionIdDefined sid = true)
    {buf : Buffer} (hb : BufBounded buf) (prepend : Bool) :
    ∃ buf' bytes ok, reliableAckWrite ack mru buf sid max prepend =
        some (if ok then ack.drop (min ack.length max) else ack,
          (ack.take (min ack.length max)).foldr (fun id mru => copyAckToMru mru id) mru, buf', bytes,
          ok) ∧
      buf' = (bufSub buf (ackSize (min max ((ack.take (min ack.length max)).foldr
        (fun id mru => copyAckToMru mru id) mru).length)) prepend).1 ∧
      (ok = true ↔ (bufSub buf (ackSize (min max ((ack.take (min ack.length max)).foldr
        (fun id mru => copyAckToMru mru id) mru).length)) prepend).2.data ≠ none) ∧
      (ok = true →
        bytes = UInt8.ofNat (min max ((ack.take (min ack.length max)).foldr
            (fun id mru => copyAckToMru mru id) mru).length) ::
          (ackIdBytes (((ack.take (min ack.length max)).foldr (fun id mru => copyAckToMru mru id)
              mru).take (min max ((ack.take (min ack.length max)).foldr
                (fun id mru => copyAckToMru mru id) mru).length)) ++
            (if min max ((ack.take (min ack.length max)).foldr (fun id mru => copyAckToMru mru id)
                mru).length = 0 then [] else sid))) := by
  generalize hM : (ack.take (min ack.length max)).foldr (fun id mru => copyAckToMru mru id) mru = M
    at hmru' ⊢
  have hcopy : copyAcksToMru ack mru (min ack.length max) = some M := by
    rw [copyAcksToMru, if_neg (by omega), hM]
  have htot : (UInt8.ofNat (min max M.length)).toNat = min max M.length :=
    UInt8.toNat_ofNat_of_lt' (by have : UInt8.size = 256 := rfl; unfold reliableAckSize at hmru'; omega)
  unfold reliableAckWrite
  dsimp only
  rw [hcopy, Option.bind_some, htot]
  by_cases hsub : (bufSub buf (ackSize (min max M.length)) prepend).2.data = none
  · rw [if_pos hsub]
    exact ⟨_, [], false, rfl, rfl, by simp [hsub], fun h => absurd h Bool.false_ne_true⟩
  rw [if_neg hsub]
  -- the sub-buffer: empty, of the size of the record
  have hsize : ackSize (min max M.length) ≤ 41 := by
    unfold ackSize sidSize
    unfold reliableAckSize at hmru'
    split <;> omega
  have hsb := bufSub_bounded (by omega) prepend buf hb hsub
  obtain ⟨hoff, hlen₀, hcap⟩ := bufSub_snd_fields hsub
  generalize bufSub buf (ackSize (min max M.length)) prepend = r at hsb hoff hlen₀ hcap hsub ⊢
  have hc₀ : r.2.content = [] := by simp [Buffer.content, hlen₀]
  -- the count byte
  have hroom₁ : r.2.offset + r.2.len + [UInt8.ofNat (min max M.length)].length ≤ r.2.capacity := by
    rw [hoff, hlen₀, hcap, List.length_singleton]
    unfold ackSize
    omega
  have hw₁ : bufWriteAssert r.2 [UInt8.ofNat (min max M.length)] 1 =
      some (r.2.append [UInt8.ofNat (min max M.length)]) := bufWriteAssert_append hsb hroom₁
  have hb₁ := hsb.append_bounded hroom₁
  have hc₁ := hsb.content_append hroom₁
  rw [hc₀, List.nil_append] at hc₁
  -- the ids
  have hids : (M.take (min max M.length)).length = min max M.length := by
    rw [List.length_take]
    omega
  obtain ⟨sub₂, hw₂, hb₂, hc₂, hoff₂, hlen₂, hcap₂⟩ := writeAckIds_append hb₁
    (M.take (min max M.length)) (by
      simp only [Buffer.offset_append, Buffer.len_append, Buffer.capacity_append, hoff, hlen₀, hcap,
        List.length_singleton, hids]
      unfold ackSize
      split <;> omega)
  simp only [hw₁, hw₂, Option.bind_eq_bind, Option.bind_some, drop_of_ne_zero_ite]
  by_cases hzero : min max M.length = 0
  · -- no ids: no session id
    have hz : ¬(UInt8.ofNat (min max M.length) ≠ 0) := fun h => h (by rw [hzero]; rfl)
    rw [if_neg hz]
    refine ⟨r.1, sub₂.content, true, ?_, rfl, iff_of_true rfl hsub, fun _ => ?_⟩
    · rw [if_pos rfl]
    · rw [hc₂, hc₁, if_pos hzero, hzero, List.take_zero, ackIdBytes_nil, List.singleton_append,
        List.nil_append]
  · have hz : UInt8.ofNat (min max M.length) ≠ 0 := by
      intro h
      have := congrArg UInt8.toNat h
      rw [htot] at this
      exact hzero this
    have hroom₃ : sub₂.offset + sub₂.len + sid.length ≤ sub₂.capacity := by
      rw [hoff₂, hlen₂, hcap₂, Buffer.offset_append, Buffer.len_append, Buffer.capacity_append, hoff,
        hlen₀, hcap, hids, hsid, List.length_singleton]
      unfold ackSize
      rw [if_neg hzero]
      omega
    have hw₃ : bufWriteAssert sub₂ sid sidSize = some (sub₂.append sid) := by
      rw [← hsid]
      exact bufWriteAssert_append hb₂ hroom₃
    simp only [hz, ne_eq, not_false_eq_true, if_true, hdef, hw₃, Option.bind_some]
    refine ⟨r.1, _, true, rfl, rfl, iff_of_true rfl hsub, fun _ => ?_⟩
    rw [hb₂.content_append hroom₃, hc₂, hc₁, if_neg hzero, List.singleton_append, List.cons_append]

/-- `reliable_ack_write` followed by `reliable_ack_parse` of the bytes written: the parser reads
back the first `min(max, ack_mru.len)` ids of the updated `ack_mru`, and the session id when there
are any; each ack sent now is among them, and `ack` keeps its later entries in order. When
`buf_sub` fails, `ack` is unchanged. -/
theorem reliable_ack_write_round_trip {ack mru : List UInt32} (hack : ack.Nodup)
    (hacklen : ack.length ≤ reliableAckSize) (hmru : mru.length ≤ reliableAckSize) (max : Nat)
    {sid : List UInt8} (hsid : sid.length = sidSize) (hdef : sessionIdDefined sid = true)
    {buf : Buffer} (hb : BufBounded buf) (prepend : Bool) :
    ∃ ack' mru' buf' bytes ok, reliableAckWrite ack mru buf sid max prepend =
        some (ack', mru', buf', bytes, ok) ∧
      (ok = true →
        (∀ (rbuf : Buffer) (rest sessionIdRemote : List UInt8), BufBounded rbuf →
          rbuf.content = bytes ++ rest →
          ∃ rbuf', reliableAckParse rbuf sessionIdRemote =
              some (rbuf', mru'.take (min max mru'.length),
                (if min max mru'.length = 0 then sessionIdRemote else sid), true) ∧
            rbuf'.content = rest) ∧
        (∀ id ∈ ack.take (min ack.length max), id ∈ mru'.take (min max mru'.length)) ∧
        ack' = ack.drop (min ack.length max)) ∧
      (ok = false → ack' = ack) := by
  have hn : (ack.take (min ack.length max)).length = min ack.length max := by
    rw [List.length_take]
    omega
  obtain ⟨hMtake, hMlen⟩ := take_foldr_copyAckToMru hmru (hack.sublist (List.take_sublist _ _))
    (by rw [hn]; omega)
  obtain ⟨buf', bytes, ok, hw, -, -, hbytes⟩ := reliableAckWrite_spec hMlen hsid hdef hb prepend
  generalize (ack.take (min ack.length max)).foldr (fun id mru => copyAckToMru mru id) mru = M
    at hMtake hMlen hw hbytes
  rw [hn] at hMtake
  have hids : (M.take (min max M.length)).length = min max M.length := by
    rw [List.length_take]
    omega
  have hempty : M.take (min max M.length) = [] ↔ min max M.length = 0 := by
    rw [← List.length_eq_zero_iff, hids]
  refine ⟨_, M, buf', bytes, ok, hw, fun hok => ⟨?_, ?_, by rw [if_pos hok]⟩, fun hok => by
    rw [hok]; rfl⟩
  · -- the parser reads the record back
    intro rbuf rest sessionIdRemote hrb hrc
    have hc : rbuf.content = UInt8.ofNat (M.take (min max M.length)).length ::
        (ackIdBytes (M.take (min max M.length)) ++
          ((if M.take (min max M.length) = [] then [] else sid) ++ rest)) := by
      rw [hrc, hbytes hok, hids]
      simp only [hempty, List.cons_append, List.append_assoc]
    obtain ⟨rbuf', hp, -, hrest⟩ := reliableAckParse_encode hrb (M.take (min max M.length))
      (by rw [hids]; omega) hsid sessionIdRemote hc
    refine ⟨rbuf', ?_, hrest⟩
    rw [hp]
    simp only [hempty]
  · -- the acks sent now are the first ones of the new ack_mru, inside the count written
    intro id hid
    have hsent : min ack.length max ≤ min max M.length := by
      have := congrArg List.length hMtake
      rw [List.length_take, hn] at this
      omega
    have hprefix : M.take (min ack.length max) =
        (M.take (min max M.length)).take (min ack.length max) := by
      rw [List.take_take, min_eq_left hsent]
    rw [← hMtake, hprefix] at hid
    exact List.mem_of_mem_take hid

/-- Acks 5 and 3 with an empty `ack_mru` and `max` 8, written into an empty 64-byte buffer. -/
theorem reliable_ack_write_round_trip_two_acks :
    ∃ ack' mru' buf' bytes ok, reliableAckWrite [5, 3] [] ⟨64, 0, 0, some (List.replicate 64 0)⟩
        [1, 2, 3, 4, 5, 6, 7, 8] 8 false = some (ack', mru', buf', bytes, ok) ∧
      (ok = true →
        (∀ (rbuf : Buffer) (rest sessionIdRemote : List UInt8), BufBounded rbuf →
          rbuf.content = bytes ++ rest →
          ∃ rbuf', reliableAckParse rbuf sessionIdRemote =
              some (rbuf', mru'.take (min 8 mru'.length),
                (if min 8 mru'.length = 0 then sessionIdRemote else [1, 2, 3, 4, 5, 6, 7, 8]), true) ∧
            rbuf'.content = rest) ∧
        (∀ id ∈ [5, 3].take (min 2 8), id ∈ mru'.take (min 8 mru'.length)) ∧
        ack' = [5, 3].drop (min 2 8)) ∧
      (ok = false → ack' = [5, 3]) :=
  reliable_ack_write_round_trip (by decide) (by decide) (by decide) 8 rfl (by decide)
    ⟨⟨rfl, by decide, by decide, by decide, by decide, by decide⟩, by decide⟩ false

end OpenVpn
