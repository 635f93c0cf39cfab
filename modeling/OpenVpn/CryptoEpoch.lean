import OpenVpn.PacketId
import OpenVpn.PacketIdSend

/-! The epoch key schedule of `crypto_epoch.c`. Only the epochs are modelled: of the send and
receive epoch keys, of the encrypt and decrypt key contexts, of the retiring receive key and of
the future receive keys, together with the send packet counter that every new send key resets.
The key material is left out; every `ASSERT` and every read outside the future-key array makes a
function return `none`. -/

namespace OpenVpn

-- `PACKET_ID_EPOCH_MAX`: the largest 48-bit per-epoch packet id
def packetIdEpochMax : UInt64 := 0xffffffffffff

/-- `packet_id_send_update_epoch`: the state after the call and its result. -/
def packetIdSendUpdateEpoch (p : PacketIdSend) (now : Int) : PacketIdSend × Bool :=
  let p := if p.time = 0 then { p with time := now } else p
  if p.id = packetIdEpochMax then (p, false) else ({ p with id := p.id + 1 }, true)

/-- `packet_id_send_update_epoch` moves the id to the next one, or fails at
`PACKET_ID_EPOCH_MAX` and leaves it. -/
theorem id_packetIdSendUpdateEpoch (p : PacketIdSend) (now : Int)
    (hle : p.id.toNat ≤ packetIdEpochMax.toNat) :
    ((packetIdSendUpdateEpoch p now).2 = true →
        p.id.toNat < packetIdEpochMax.toNat ∧
          (packetIdSendUpdateEpoch p now).1.id.toNat = p.id.toNat + 1) ∧
      ((packetIdSendUpdateEpoch p now).2 = false → (packetIdSendUpdateEpoch p now).1.id = p.id) := by
  -- latching the time leaves the id
  have hid : (if p.time = 0 then { p with time := now } else p).id = p.id := by
    split <;> rfl
  have hmax : packetIdEpochMax.toNat = 2 ^ 48 - 1 := rfl
  unfold packetIdSendUpdateEpoch
  dsimp only
  rw [hid]
  by_cases hm : p.id = packetIdEpochMax
  · rw [if_pos hm]
    exact ⟨fun h => absurd h (by simp), fun _ => hid⟩
  · rw [if_neg hm]
    have hne : p.id.toNat ≠ packetIdEpochMax.toNat := fun h => hm (UInt64.toNat_inj.mp h)
    refine ⟨fun _ => ⟨by omega, ?_⟩, fun h => absurd h (by simp)⟩
    dsimp only
    rw [UInt64.toNat_add, UInt64.toNat_one]
    omega

/-- `packet_id_write_epoch`: the epoch in the top 16 bits of the 64-bit id, written in network
order after the update. -/
def packetIdWriteEpoch (p : PacketIdSend) (epoch : UInt16) (buf : Buffer) (now : Int) :
    Option (PacketIdSend × Buffer × Bool) :=
  match packetIdSendUpdateEpoch p now with
  | (p, false) => some (p, buf, false)
  | (p, true) =>
      let netId : UInt64 := epoch.toUInt64 <<< 48 ||| p.id
      (bufWrite buf (BigEndian.encode 8 netId.toNat) 0 8).map fun r => (p, r.1, r.2)

/-- A write leaves the state of the update, and succeeds only if the update did. -/
theorem packetIdWriteEpoch_some {p p' : PacketIdSend} {epoch : UInt16} {buf buf' : Buffer}
    {now : Int} {ok : Bool} (h : packetIdWriteEpoch p epoch buf now = some (p', buf', ok)) :
    p' = (packetIdSendUpdateEpoch p now).1 ∧ (ok = true → (packetIdSendUpdateEpoch p now).2 = true) := by
  unfold packetIdWriteEpoch at h
  rcases hu : packetIdSendUpdateEpoch p now with ⟨q, _ | _⟩ <;> rw [hu] at h
  · cases h
    exact ⟨rfl, fun h => h⟩
  · obtain ⟨r, -, hr⟩ := Option.map_eq_some_iff.mp h
    cases hr
    exact ⟨rfl, fun _ => rfl⟩

/-! ### The wire format of epoch packet ids -/

-- `PACKET_ID_MASK`: the low 48 bits of an epoch packet id
def packetIdMask : UInt64 := 0xffffffffffff

/-- `packet_id_read_epoch`: the epoch, the top 16 bits of the 64-bit id in network order, and
`pin->id` its low 48 bits; with fewer than 8 bytes to read the epoch is 0 and `pin` is left. -/
def packetIdReadEpoch (pin : PacketIdNet) (buf : Buffer) : Option (PacketIdNet × Buffer × UInt16) :=
  match bufRead buf 8 with
  | none => none
  | some (buf, none) => some (pin, buf, 0)
  | some (buf, some packetId) =>
      let id : UInt64 := UInt64.ofNat (BigEndian.decode packetId)
      some ({ pin with id := id &&& packetIdMask }, buf, (id >>> 48).toUInt16)

/-- The 64-bit id of `packet_id_write_epoch` is the epoch times `2^48` plus the counter. -/
theorem toNat_epochNetId (epoch : UInt16) {id : UInt64} (h : id.toNat < 2 ^ 48) :
    (epoch.toUInt64 <<< 48 ||| id).toNat = epoch.toNat * 2 ^ 48 + id.toNat := by
  have he := epoch.toNat_lt
  have hshift : (epoch.toUInt64 <<< 48).toNat = epoch.toNat * 2 ^ 48 := by
    rw [UInt64.toNat_shiftLeft, UInt16.toNat_toUInt64, Nat.shiftLeft_eq]
    exact Nat.mod_eq_of_lt (by simp only [UInt64.reduceToNat, Nat.reduceMod]; omega)
  rw [UInt64.toNat_or, hshift, Nat.or_comm, BigEndian.or_mul_two_pow 48 h, Nat.add_comm]

/-- Reading back 8 bytes of `epoch * 2^48 + id`: the epoch and the counter. -/
theorem packetIdReadEpoch_encode {rbuf : Buffer} (hb : BufBounded rbuf) (pin : PacketIdNet)
    (epoch : UInt16) {id : UInt64} (h : id.toNat < 2 ^ 48) {rest : List UInt8}
    (hc : rbuf.content = BigEndian.encode 8 (epoch.toNat * 2 ^ 48 + id.toNat) ++ rest) :
    ∃ rbuf', packetIdReadEpoch pin rbuf = some (⟨id, pin.time⟩, rbuf', epoch) ∧
      BufBounded rbuf' ∧ rbuf'.content = rest := by
  have he := epoch.toNat_lt
  have hval : epoch.toNat * 2 ^ 48 + id.toNat < 2 ^ 64 := by omega
  have hlen : (BigEndian.encode 8 (epoch.toNat * 2 ^ 48 + id.toNat)).length = 8 :=
    BigEndian.length_encode 8 _
  obtain ⟨rbuf', hread, hb', hc'⟩ := hb.bufRead_cursor 8
  have h8 : 8 ≤ rbuf.content.length := by rw [hc, List.length_append, hlen]; omega
  rw [if_pos h8, hc, List.take_left' hlen] at hread
  rw [if_pos h8, hc, List.drop_left' hlen] at hc'
  refine ⟨rbuf', ?_, hb', hc'⟩
  rw [packetIdReadEpoch, show ((8 : Nat) : Int) = 8 from rfl] at *
  rw [hread]
  dsimp only
  rw [BigEndian.decode_encode 8 _ (by omega)]
  -- the mask keeps the counter and the shift the epoch
  have hid : UInt64.ofNat (epoch.toNat * 2 ^ 48 + id.toNat) &&& packetIdMask = id := by
    apply UInt64.toNat_inj.mp
    rw [UInt64.toNat_and, UInt64.toNat_ofNat', Nat.mod_eq_of_lt hval,
      show packetIdMask.toNat = 2 ^ 48 - 1 from rfl, Nat.and_two_pow_sub_one_eq_mod]
    omega
  have hepoch : (UInt64.ofNat (epoch.toNat * 2 ^ 48 + id.toNat) >>> 48).toUInt16 = epoch := by
    apply UInt16.toNat_inj.mp
    rw [UInt64.toNat_toUInt16, UInt64.toNat_shiftRight, UInt64.toNat_ofNat',
      Nat.mod_eq_of_lt hval, Nat.shiftRight_eq_div_pow]
    simp only [UInt64.reduceToNat, Nat.reduceMod]
    omega
  rw [hid, hepoch]

/-- `packet_id_write_epoch` and `packet_id_read_epoch` agree. Below `PACKET_ID_EPOCH_MAX` a
successful write moves the counter to the next id and appends the 8 bytes of
`epoch * 2^48 + id` in network order, from which a read gives the epoch and the new id back. At
`PACKET_ID_EPOCH_MAX` the write fails and leaves the counter and the buffer. -/
theorem packet_id_epoch_round_trip (p : PacketIdSend) (epoch : UInt16) {buf : Buffer}
    (hb : BufBounded buf) (now : Int) :
    (p.id.toNat < 2 ^ 48 - 1 → ∀ p' buf', packetIdWriteEpoch p epoch buf now = some (p', buf', true) →
      p'.id.toNat = p.id.toNat + 1 ∧ p'.id.toNat < 2 ^ 48 ∧
      buf'.content = buf.content ++ BigEndian.encode 8 (epoch.toNat * 2 ^ 48 + p'.id.toNat) ∧
      ∀ (pin : PacketIdNet) (rbuf : Buffer) (rest : List UInt8), BufBounded rbuf →
        rbuf.content = BigEndian.encode 8 (epoch.toNat * 2 ^ 48 + p'.id.toNat) ++ rest →
        ∃ rbuf', packetIdReadEpoch pin rbuf = some (⟨p'.id, pin.time⟩, rbuf', epoch) ∧
          rbuf'.content = rest) ∧
    (p.id = packetIdEpochMax →
      ∃ p', packetIdWriteEpoch p epoch buf now = some (p', buf, false) ∧ p'.id = p.id) := by
  have hmax : packetIdEpochMax.toNat = 2 ^ 48 - 1 := rfl
  constructor
  · intro hlt p' buf' hw
    obtain ⟨hp', hok⟩ := packetIdWriteEpoch_some hw
    obtain ⟨hupd, -⟩ := id_packetIdSendUpdateEpoch p now (by omega)
    obtain ⟨-, hnext⟩ := hupd (hok rfl)
    rw [← hp'] at hnext
    have hid : p'.id.toNat < 2 ^ 48 := by omega
    -- the write of the 8 bytes
    unfold packetIdWriteEpoch at hw
    rcases hu : packetIdSendUpdateEpoch p now with ⟨q, _ | _⟩ <;> rw [hu] at hw hp'
    · cases hw
    · cases hp'
      obtain ⟨⟨rb, rok⟩, hr, hrr⟩ := Option.map_eq_some_iff.mp hw
      cases hrr
      have hr' : bufWrite buf (BigEndian.encode 8 (epoch.toUInt64 <<< 48 ||| q.id).toNat) 0
          (BigEndian.encode 8 (epoch.toUInt64 <<< 48 ||| q.id).toNat).length = some (rb, true) := by
        rw [BigEndian.length_encode]
        exact hr
      rw [hb.bufWrite_eq] at hr'
      split_ifs at hr' with hroom
      · cases hr'
        refine ⟨hnext, hid, ?_, fun pin rbuf rest hrb hc => ?_⟩
        · rw [← toNat_epochNetId epoch hid]
          exact hb.content_append hroom.2
        · obtain ⟨rbuf', hread, -, hc'⟩ := packetIdReadEpoch_encode hrb pin epoch hid hc
          exact ⟨rbuf', hread, hc'⟩
      · -- no room: the write returns false
        simp at hr'
  · intro heq
    have hu : packetIdSendUpdateEpoch p now =
        ((if p.time = 0 then { p with time := now } else p), false) := by
      unfold packetIdSendUpdateEpoch
      split <;> simp [heq]
    refine ⟨_, by rw [packetIdWriteEpoch, hu], ?_⟩
    split <;> rfl

/-- Packet 42 of epoch 3 into an empty 16-byte buffer: the bytes `00 03 00 00 00 00 00 2a`. -/
theorem packet_id_epoch_round_trip_epoch_three :
    ∃ p' buf', packetIdWriteEpoch ⟨41, 100⟩ 3 ⟨16, 0, 0, some (List.replicate 16 0)⟩ 100 =
        some (p', buf', true) ∧ p'.id.toNat = 42 ∧
      buf'.content = [0, 3, 0, 0, 0, 0, 0, 42] := by
  have hb : BufBounded ⟨16, 0, 0, some (List.replicate 16 0)⟩ :=
    ⟨⟨rfl, by decide, by decide, by decide, by decide, by decide⟩, by decide⟩
  have hw : packetIdWriteEpoch ⟨41, 100⟩ 3 ⟨16, 0, 0, some (List.replicate 16 0)⟩ 100 =
      some (⟨42, 100⟩, ⟨16, 0, 8, some ([0, 3, 0, 0, 0, 0, 0, 42] ++ List.replicate 8 0)⟩, true) := by
    decide
  obtain ⟨hid, -, hc, -⟩ := (packet_id_epoch_round_trip ⟨41, 100⟩ 3 hb 100).1 (by decide) _ _ hw
  refine ⟨_, _, hw, hid, ?_⟩
  rw [hc]
  decide

/-- The epoch fields of `struct crypto_options`; `futureEpochs` holds the epochs of
`epoch_data_keys_future`, whose length is `epoch_data_keys_future_count`. -/
structure EpochOpts where
  epochKeySend : UInt16
  epochKeyRecv : UInt16
  encryptEpoch : UInt16
  decryptEpoch : UInt16
  initialized : Bool
  retiringEpoch : UInt16
  futureEpochs : List UInt16
  packetIdSend : PacketIdSend
  deriving DecidableEq, Repr

/-- `epoch_data_keys_future_count`. -/
def EpochOpts.futureCount (o : EpochOpts) : UInt16 := UInt16.ofNat o.futureEpochs.length

/-- A cleared `struct crypto_options`. -/
def clearedEpochOpts : EpochOpts := ⟨0, 0, 0, 0, false, 0, [], resetPacketIdSend⟩

/-- The epoch `epoch_key_iterate` gives the next epoch key. -/
def epochKeyIterate (epoch : UInt16) : UInt16 := epoch + 1

/-- `epoch_init_send_key_ctx`: a send key for the current send epoch key, and a reset counter. -/
def epochInitSendKeyCtx (o : EpochOpts) : Option EpochOpts :=
  if o.encryptEpoch = o.epochKeySend then none
  else some { o with encryptEpoch := o.epochKeySend, packetIdSend := resetPacketIdSend }

/-- `n` passes of the loop that regenerates future keys: each iterates the receive epoch key and
gives its epoch to the next slot. -/
def regenerateRecvKeys (recv : UInt16) : Nat → UInt16 × List UInt16
  | 0 => (recv, [])
  | n + 1 =>
      let rest := regenerateRecvKeys (epochKeyIterate recv) n
      (rest.1, epochKeyIterate recv :: rest.2)

/-- `epoch_generate_future_receive_keys`. -/
def epochGenerateFutureReceiveKeys (o : EpochOpts) : Option EpochOpts := do
  if !o.initialized then none
  let cur := o.decryptEpoch
  let count := o.futureCount
  if count = 0 then none
  let highest ← o.futureEpochs[count.toNat - 1]?
  if !(o.epochKeyRecv = 1 || highest = o.epochKeyRecv) then none
  let future := o.futureEpochs.map fun e => if 0 < e ∧ e < cur then 0 else e
  let highest ← future[count.toNat - 1]?
  let currentHighestKey : UInt16 := if highest ≠ 0 then highest else 1
  let desiredHighestKey : UInt16 := cur + count
  let numKeysGenerate := desiredHighestKey - currentHighestKey
  if !(List.range numKeysGenerate.toNat).all fun i => future[i]? = some 0 then none
  let regenerated := regenerateRecvKeys o.epochKeyRecv numKeysGenerate.toNat
  let future := future.drop numKeysGenerate.toNat ++ regenerated.2
  if !future.all fun e => 0 < e then none
  some { o with futureEpochs := future, epochKeyRecv := regenerated.1 }

/-- `n` passes of the `while (co->epoch_key_send.epoch < new_epoch)` loop. -/
def epochKeyIterateWhileBelow (target : UInt16) : Nat → UInt16 → UInt16
  | 0, epoch => epoch
  | n + 1, epoch =>
      if epoch < target then epochKeyIterateWhileBelow target n (epochKeyIterate epoch) else epoch

/-- That loop from `epoch`: each pass adds one, so it stops within `target - epoch` passes. -/
def epochKeyIterateUpTo (epoch target : UInt16) : UInt16 :=
  epochKeyIterateWhileBelow target (target.toNat - epoch.toNat) epoch

/-- The loop stops at the target, or does not run when the key is already there. -/
theorem epochKeyIterateUpTo_eq (epoch target : UInt16) :
    epochKeyIterateUpTo epoch target = if epoch < target then target else epoch := by
  -- the fuel `target - epoch` bounds the passes; induction on the fuel left
  suffices h : ∀ n e, target.toNat - e.toNat ≤ n →
      epochKeyIterateWhileBelow target n e = if e < target then target else e from
    h _ epoch le_rfl
  intro n
  induction n with
  | zero =>
      intro e he
      have hlt : ¬e < target := by rw [UInt16.lt_iff_toNat_lt]; omega
      simp [epochKeyIterateWhileBelow, hlt]
  | succ n ih =>
      intro e he
      by_cases hlt : e < target
      · have hlt' := UInt16.lt_iff_toNat_lt.mp hlt
        have hnext : (epochKeyIterate e).toNat = e.toNat + 1 := by
          rw [epochKeyIterate, UInt16.toNat_add, UInt16.toNat_one]
          have := target.toNat_lt
          omega
        rw [epochKeyIterateWhileBelow, if_pos hlt, ih _ (by omega), if_pos hlt]
        split_ifs with hlt''
        · rfl
        · apply UInt16.toNat_inj.mp
          rw [UInt16.lt_iff_toNat_lt] at hlt''
          omega
      · simp [epochKeyIterateWhileBelow, hlt]

/-- `epoch_replace_update_recv_key`. -/
def epochReplaceUpdateRecvKey (o : EpochOpts) (newEpoch : UInt16) : Option EpochOpts := do
  let fki := o.futureEpochs.findIdx (· = newEpoch)
  if !(fki < o.futureCount.toNat) then none
  if o.futureEpochs[fki]? ≠ some newEpoch then none
  let o ← if o.encryptEpoch < newEpoch then
      epochInitSendKeyCtx { o with
        encryptEpoch := 0
        epochKeySend := epochKeyIterateUpTo o.epochKeySend newEpoch }
    else some o
  epochGenerateFutureReceiveKeys { o with
    retiringEpoch := o.decryptEpoch
    decryptEpoch := newEpoch
    futureEpochs := o.futureEpochs.set fki 0 }

/-- The send side of `epoch_replace_update_recv_key`: a send key caught up with the new epoch
when the encrypt key is older. -/
def sendKeyAfterReplace (o : EpochOpts) (newEpoch : UInt16) : EpochOpts :=
  if o.encryptEpoch < newEpoch then
    let send := epochKeyIterateUpTo o.epochKeySend newEpoch
    { o with epochKeySend := send, encryptEpoch := send, packetIdSend := resetPacketIdSend }
  else o

@[simp]
theorem initialized_sendKeyAfterReplace (o : EpochOpts) (newEpoch : UInt16) :
    (sendKeyAfterReplace o newEpoch).initialized = o.initialized := by
  unfold sendKeyAfterReplace
  split <;> rfl

@[simp]
theorem epochKeyRecv_sendKeyAfterReplace (o : EpochOpts) (newEpoch : UInt16) :
    (sendKeyAfterReplace o newEpoch).epochKeyRecv = o.epochKeyRecv := by
  unfold sendKeyAfterReplace
  split <;> rfl

/-- Once the new epoch has been found among the future keys, `epoch_replace_update_recv_key`
moves the send key and then regenerates the future keys around the new decrypt key. -/
theorem epochReplaceUpdateRecvKey_eq (o : EpochOpts) (newEpoch : UInt16) (i : Nat)
    (hfki : o.futureEpochs.findIdx (· = newEpoch) = i) (hi : i < o.futureCount.toNat)
    (hget : o.futureEpochs[i]? = some newEpoch) (hne : newEpoch ≠ 0) :
    epochReplaceUpdateRecvKey o newEpoch =
      epochGenerateFutureReceiveKeys { sendKeyAfterReplace o newEpoch with
        retiringEpoch := o.decryptEpoch
        decryptEpoch := newEpoch
        futureEpochs := o.futureEpochs.set i 0 } := by
  have hsend : epochKeyIterateUpTo o.epochKeySend newEpoch ≠ 0 := by
    rw [epochKeyIterateUpTo_eq]
    split_ifs with hlt
    · exact hne
    · intro h0
      rw [h0] at hlt
      exact hne (UInt16.toNat_inj.mp (by rw [UInt16.lt_iff_toNat_lt] at hlt; simp at hlt ⊢; omega))
  unfold epochReplaceUpdateRecvKey
  simp only [hfki, hi, hget, decide_true, Bool.not_true, Bool.false_eq_true, if_false, ne_eq,
    not_true_eq_false, Option.bind_eq_bind]
  by_cases hlt : o.encryptEpoch < newEpoch
  · simp [hlt, epochInitSendKeyCtx, sendKeyAfterReplace, Ne.symm hsend]
  · simp [hlt, sendKeyAfterReplace]

/-- `epoch_generate_future_receive_keys` changes only the future keys and the receive epoch key. -/
theorem epochGenerateFutureReceiveKeys_fields {p q : EpochOpts}
    (h : epochGenerateFutureReceiveKeys p = some q) :
    q = { p with futureEpochs := q.futureEpochs, epochKeyRecv := q.epochKeyRecv } := by
  unfold epochGenerateFutureReceiveKeys at h
  -- each failed guard returns `none`, so a result has passed all of them and is the last update
  simp only [Option.bind_eq_bind, Option.bind_none, Option.ite_none_left_eq_some,
    Option.bind_eq_some_iff] at h
  obtain ⟨-, -, highest, -, -, highest', -, -, -, h⟩ := h
  rw [← Option.some.inj h]

/-- `epoch_generate_future_receive_keys` asserts that the highest future key is the receive
epoch key, unless no key has been generated yet. -/
theorem epochGenerateFutureReceiveKeys_of_highest_ne {p : EpochOpts} (highest : UInt16)
    (hhigh : p.futureEpochs[p.futureCount.toNat - 1]? = some highest)
    (hfirst : p.epochKeyRecv ≠ 1) (hne : highest ≠ p.epochKeyRecv) :
    epochGenerateFutureReceiveKeys p = none := by
  unfold epochGenerateFutureReceiveKeys
  simp [hhigh, hfirst, hne]

/-- Whatever the future keys, a replacement that returns leaves the send side of
`sendKeyAfterReplace`. -/
theorem epochReplaceUpdateRecvKey_sendKey {o o' : EpochOpts} {newEpoch : UInt16}
    (h : epochReplaceUpdateRecvKey o newEpoch = some o') :
    o'.epochKeySend = (sendKeyAfterReplace o newEpoch).epochKeySend ∧
      o'.encryptEpoch = (sendKeyAfterReplace o newEpoch).encryptEpoch ∧
      o'.packetIdSend = (sendKeyAfterReplace o newEpoch).packetIdSend := by
  unfold epochReplaceUpdateRecvKey at h
  simp only [Option.bind_eq_bind, Option.bind_none] at h
  -- the two assertions hold; then the send key moves or not
  split_ifs at h with _ _ hlt
  · obtain ⟨o₁, h₁, h₂⟩ := Option.bind_eq_some_iff.mp h
    unfold epochInitSendKeyCtx at h₁
    split_ifs at h₁
    rw [← Option.some.inj h₁] at h₂
    rw [epochGenerateFutureReceiveKeys_fields h₂]
    simp [sendKeyAfterReplace, hlt]
  · rw [Option.bind_some] at h
    rw [epochGenerateFutureReceiveKeys_fields h]
    simp [sendKeyAfterReplace, hlt]

/-- `epoch_iterate_send_key`. -/
def epochIterateSendKey (o : EpochOpts) : Option EpochOpts :=
  if !(o.epochKeySend < 65535) then none
  else epochInitSendKeyCtx { o with
    epochKeySend := epochKeyIterate o.epochKeySend
    encryptEpoch := 0 }

/-- Below the last epoch, iterating moves the send key and the encrypt key to the next epoch and
resets the counter. -/
theorem epochIterateSendKey_eq (o : EpochOpts) :
    epochIterateSendKey o =
      if o.epochKeySend < 65535 then
        some { o with
          epochKeySend := o.epochKeySend + 1
          encryptEpoch := o.epochKeySend + 1
          packetIdSend := resetPacketIdSend }
      else none := by
  unfold epochIterateSendKey epochInitSendKeyCtx
  by_cases h : o.epochKeySend < 65535
  · have hne : (0 : UInt16) ≠ o.epochKeySend + 1 := by
      intro h0
      have h0' := congrArg UInt16.toNat h0
      rw [UInt16.lt_iff_toNat_lt] at h
      rw [UInt16.toNat_add, UInt16.toNat_one] at h0'
      simp at h h0'
      omega
    simp [h, hne, epochKeyIterate]
  · simp [h]

/-- `epoch_check_send_iterate`, with the results of `aead_usage_limit_reached` on the send and on
the receive key and of `cipher_decrypt_verify_fail_warn` given. -/
def epochCheckSendIterate (o : EpochOpts)
    (aeadUsageLimit sendLimitReached recvLimitReached decryptVerifyFailWarn : Bool) :
    Option EpochOpts :=
  if o.epochKeySend = 65535 then some o
  else do
    let o ← if aeadUsageLimit then
        if sendLimitReached then epochIterateSendKey o
        else if o.encryptEpoch = o.decryptEpoch && (recvLimitReached || decryptVerifyFailWarn) then
          epochIterateSendKey o
        else some o
      else some o
    if o.packetIdSend.id = packetIdEpochMax then epochIterateSendKey o else some o

/-- After an iteration the counter is fresh, so the exhausted-counter check of
`epoch_check_send_iterate` does not iterate again. -/
theorem counterCheck_of_iterate {o o' : EpochOpts}
    (h : (epochIterateSendKey o).bind (fun o =>
      if o.packetIdSend.id = packetIdEpochMax then epochIterateSendKey o else some o) = some o') :
    epochIterateSendKey o = some o' := by
  obtain ⟨o₁, hit, h₂⟩ := Option.bind_eq_some_iff.mp h
  rw [hit]
  rw [epochIterateSendKey_eq] at hit
  split_ifs at hit
  rw [← Option.some.inj hit] at h₂ ⊢
  dsimp only at h₂
  rw [if_neg (by decide)] at h₂
  exact h₂

theorem counterCheck_cases {o o' : EpochOpts}
    (h : (some o).bind (fun o =>
      if o.packetIdSend.id = packetIdEpochMax then epochIterateSendKey o else some o) = some o') :
    o' = o ∨ epochIterateSendKey o = some o' := by
  rw [Option.bind_some] at h
  split_ifs at h
  · exact .inr h
  · exact .inl (Option.some.inj h).symm

/-- `epoch_check_send_iterate` iterates the send key at most once. -/
theorem epochCheckSendIterate_cases {o o' : EpochOpts}
    {aeadUsageLimit sendLimitReached recvLimitReached decryptVerifyFailWarn : Bool}
    (h : epochCheckSendIterate o aeadUsageLimit sendLimitReached recvLimitReached
      decryptVerifyFailWarn = some o') :
    o' = o ∨ epochIterateSendKey o = some o' := by
  unfold epochCheckSendIterate at h
  simp only [Option.bind_eq_bind] at h
  -- the last epoch, the two usage-limit iterations, and no usage-limit iteration
  split_ifs at h
  · exact .inl (Option.some.inj h).symm
  · exact .inr (counterCheck_of_iterate h)
  · exact .inr (counterCheck_of_iterate h)
  · exact counterCheck_cases h
  · exact counterCheck_cases h

/-- `epoch_init_key_ctx` with the epochs of the two E1 keys. -/
def epochInitKeyCtx (o : EpochOpts) (e1Send e1Recv futureKeyCount : UInt16) :
    Option EpochOpts := do
  if !(e1Send = 1 && e1Recv = 1) then none
  let o ← epochInitSendKeyCtx { o with epochKeyRecv := e1Recv, epochKeySend := e1Send }
  epochGenerateFutureReceiveKeys { o with
    decryptEpoch := o.epochKeyRecv
    initialized := true
    futureEpochs := List.replicate futureKeyCount.toNat 0 }

/-- The key context `epoch_lookup_decrypt_key` returns. -/
inductive DecryptKeyRef
  | decrypt
  | retiring
  | future (index : Nat)
  deriving DecidableEq, Repr

/-- `epoch_lookup_decrypt_key`; `none` is `NULL`. -/
def epochLookupDecryptKey (o : EpochOpts) (epoch : UInt16) : Option DecryptKeyRef :=
  if o.decryptEpoch = epoch then some .decrypt
  else if o.retiringEpoch ≠ 0 ∧ o.retiringEpoch = epoch then some .retiring
  else if o.decryptEpoch < epoch ∧ epoch.toNat ≤ o.decryptEpoch.toNat + o.futureCount.toNat then
    if (epoch.toNat : Int) > 65535 - (o.futureCount.toNat : Int) - 1 then none
    else some (.future (epoch.toNat - (o.decryptEpoch.toNat + 1)))
  else none

/-- `epoch_lookup_decrypt_key` returns a future key only for an epoch after the decrypt epoch,
at its distance from it, and only below the edge of the epoch space. -/
theorem epochLookupDecryptKey_future {o : EpochOpts} {epoch : UInt16} {i : Nat}
    (h : epochLookupDecryptKey o epoch = some (.future i)) :
    epoch.toNat = o.decryptEpoch.toNat + 1 + i ∧ i < o.futureCount.toNat ∧
      epoch.toNat + o.futureCount.toNat ≤ 65534 := by
  unfold epochLookupDecryptKey at h
  split_ifs at h with hdec hret hrange hedge <;>
    simp only [Option.some.injEq, reduceCtorEq, DecryptKeyRef.future.injEq] at h
  obtain ⟨hlt, hle⟩ := hrange
  rw [UInt16.lt_iff_toNat_lt] at hlt
  omega

end OpenVpn
