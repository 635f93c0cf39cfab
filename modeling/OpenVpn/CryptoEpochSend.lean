import OpenVpn.CryptoEpochWindow

/-! The send keys of the epoch key schedule over whole runs. From `epoch_init_key_ctx`, each
operation that touches the send side (`epoch_iterate_send_key`, `epoch_check_send_iterate`,
`epoch_replace_update_recv_key`, and the writes of packet ids by `packet_id_write_epoch`) either
leaves the send key and the counter alone, advances the counter, or moves to a strictly later send
key with a reset counter. The encrypt key stays on the send epoch key, so the `(epoch, packet id)`
pairs written increase and none is written twice. -/

namespace OpenVpn

/-- One operation on the send side, with the pair it writes. -/
inductive EpochStep : EpochOpts → Option (UInt16 × UInt64) → EpochOpts → Prop
  | iterateSendKey {o o' : EpochOpts} :
      o.epochKeySend < 65535 → epochIterateSendKey o = some o' → EpochStep o none o'
  | checkSendIterate {o o' : EpochOpts}
      (aeadUsageLimit sendLimitReached recvLimitReached decryptVerifyFailWarn : Bool) :
      epochCheckSendIterate o aeadUsageLimit sendLimitReached recvLimitReached
        decryptVerifyFailWarn = some o' → EpochStep o none o'
  | replaceUpdateRecvKey {o o' : EpochOpts} {newEpoch : UInt16} {i : Nat} :
      epochLookupDecryptKey o newEpoch = some (.future i) →
      epochReplaceUpdateRecvKey o newEpoch = some o' → EpochStep o none o'
  | writeEpoch {o : EpochOpts} {p : PacketIdSend} {buf buf' : Buffer} {now : Int} {ok : Bool} :
      packetIdWriteEpoch o.packetIdSend o.encryptEpoch buf now = some (p, buf', ok) →
      EpochStep o (if ok then some (o.encryptEpoch, p.id) else none) { o with packetIdSend := p }

/-- The states that runs from `epoch_init_key_ctx` reach, with the pairs they have written. -/
inductive EpochReach : EpochOpts → List (UInt16 × UInt64) → Prop
  | init {o₀ o : EpochOpts} {n : UInt16} : epochInitKeyCtx o₀ 1 1 n = some o → EpochReach o []
  | step {o o' : EpochOpts} {sent : List (UInt16 × UInt64)} {out : Option (UInt16 × UInt64)} :
      EpochReach o sent → EpochStep o out o' → EpochReach o' (sent ++ out.toList)

theorem toNat_add_one_of_lt {e : UInt16} (h : e < 65535) : (e + 1).toNat = e.toNat + 1 := by
  rw [UInt16.lt_iff_toNat_lt] at h
  rw [UInt16.toNat_add, UInt16.toNat_one]
  simp at h
  omega

/-- What one step does to the send side, when the encrypt key is on the send epoch key: it moves
to a strictly later key with a reset counter, leaves the send side alone, or runs
`packet_id_send_update_epoch` and writes the new id when that succeeds. -/
theorem epochStep_cases {o o' : EpochOpts} {out : Option (UInt16 × UInt64)}
    (henc : o.encryptEpoch = o.epochKeySend) (hs : EpochStep o out o') :
    (out = none ∧ o'.encryptEpoch = o'.epochKeySend ∧ o.encryptEpoch < o'.encryptEpoch ∧
        o'.packetIdSend = resetPacketIdSend) ∨
      (out = none ∧ o'.epochKeySend = o.epochKeySend ∧ o'.encryptEpoch = o.encryptEpoch ∧
        o'.packetIdSend = o.packetIdSend) ∨
      (∃ now, o'.epochKeySend = o.epochKeySend ∧ o'.encryptEpoch = o.encryptEpoch ∧
        o'.packetIdSend = (packetIdSendUpdateEpoch o.packetIdSend now).1 ∧
        (out = none ∨ (packetIdSendUpdateEpoch o.packetIdSend now).2 = true ∧
          out = some (o.encryptEpoch, o'.packetIdSend.id))) := by
  -- an iteration from below the last epoch is the first shape
  have hiterate : ∀ {o'}, epochIterateSendKey o = some o' →
      o'.encryptEpoch = o'.epochKeySend ∧ o.encryptEpoch < o'.encryptEpoch ∧
        o'.packetIdSend = resetPacketIdSend := by
    intro o' h
    rw [epochIterateSendKey_eq] at h
    split_ifs at h with hlt
    rw [← Option.some.inj h]
    refine ⟨rfl, ?_, rfl⟩
    rw [henc, UInt16.lt_iff_toNat_lt, toNat_add_one_of_lt hlt]
    omega
  cases hs with
  | iterateSendKey _ h =>
      exact .inl ⟨rfl, hiterate h⟩
  | checkSendIterate _ _ _ _ h =>
      rcases epochCheckSendIterate_cases h with rfl | h
      · exact .inr (.inl ⟨rfl, rfl, rfl, rfl⟩)
      · exact .inl ⟨rfl, hiterate h⟩
  | @replaceUpdateRecvKey _ e _ _ h =>
      obtain ⟨hsend, hencrypt, hpid⟩ := epochReplaceUpdateRecvKey_sendKey h
      unfold sendKeyAfterReplace at hsend hencrypt hpid
      split_ifs at hsend hencrypt hpid with hlt
      · -- the catch-up loop starts from the encrypt epoch, below the new one
        have hup := epochKeyIterateUpTo_eq o.epochKeySend e
        rw [if_pos (henc ▸ hlt)] at hup
        dsimp only at hsend hencrypt hpid
        rw [hup] at hsend hencrypt
        exact .inl ⟨rfl, hencrypt.trans hsend.symm, hencrypt ▸ hlt, hpid⟩
      · exact .inr (.inl ⟨rfl, hsend, hencrypt, hpid⟩)
  | @writeEpoch p _ _ _ ok h =>
      obtain ⟨hp, hok⟩ := packetIdWriteEpoch_some h
      refine .inr (.inr ⟨_, rfl, rfl, hp, ?_⟩)
      cases ok with
      | false => exact .inl rfl
      | true => exact .inr ⟨hok rfl, rfl⟩

/-- A written pair, ordered by epoch and then by id. -/
def sentKey (x : UInt16 × UInt64) : Lex (ℕ × ℕ) := toLex (x.1.toNat, x.2.toNat)

theorem sentKey_lt_of_epoch_lt {e e' : UInt16} (i i' : UInt64) (h : e < e') :
    sentKey (e, i) < sentKey (e', i') := by
  rw [sentKey, sentKey, Prod.Lex.toLex_lt_toLex]
  exact .inl (UInt16.lt_iff_toNat_lt.mp h)

theorem sentKey_lt_of_id_lt (e : UInt16) {i i' : UInt64} (h : i.toNat < i'.toNat) :
    sentKey (e, i) < sentKey (e, i') := by
  rw [sentKey, sentKey, Prod.Lex.toLex_lt_toLex]
  exact .inr ⟨rfl, h⟩

/-- The send side along a run: the encrypt key is on a nonzero send epoch key, the counter is at
most `PACKET_ID_EPOCH_MAX`, and the pairs written so far increase, up to the current epoch and
counter. -/
structure SendKeyInv (o : EpochOpts) (sent : List (UInt16 × UInt64)) : Prop where
  encrypt_eq : o.encryptEpoch = o.epochKeySend
  send_ne : o.epochKeySend ≠ 0
  id_le : o.packetIdSend.id.toNat ≤ packetIdEpochMax.toNat
  sent_le : ∀ x ∈ sent, sentKey x ≤ sentKey (o.encryptEpoch, o.packetIdSend.id)
  sent_sorted : sent.Pairwise fun a b => sentKey a < sentKey b

theorem sendKeyInv_epochInitKeyCtx {o₀ o : EpochOpts} {n : UInt16}
    (h : epochInitKeyCtx o₀ 1 1 n = some o) : SendKeyInv o [] := by
  rw [epochInitKeyCtx_eq] at h
  split_ifs at h
  rw [← Option.some.inj h]
  exact ⟨rfl, by dsimp only; decide, by dsimp only; decide, by simp, List.Pairwise.nil⟩

section Step

variable {o o' : EpochOpts} {sent : List (UInt16 × UInt64)}

/-- A later send key with a reset counter keeps the invariant: every pair written so far has an
earlier epoch. -/
theorem SendKeyInv.rekey (hi : SendKeyInv o sent) (henc : o'.encryptEpoch = o'.epochKeySend)
    (hlt : o.encryptEpoch < o'.encryptEpoch) (hpid : o'.packetIdSend = resetPacketIdSend) :
    SendKeyInv o' sent where
  encrypt_eq := henc
  send_ne := by
    intro h0
    rw [henc, h0, UInt16.lt_iff_toNat_lt] at hlt
    simp at hlt
  id_le := by rw [hpid]; decide
  sent_le x hx := le_of_lt (lt_of_le_of_lt (hi.sent_le x hx) (sentKey_lt_of_epoch_lt _ _ hlt))
  sent_sorted := hi.sent_sorted

/-- A step of the counter under the same key keeps the invariant, and the pair it writes, if any,
comes after all earlier ones. -/
theorem SendKeyInv.update (hi : SendKeyInv o sent) (now : Int) {out : Option (UInt16 × UInt64)}
    (hsend : o'.epochKeySend = o.epochKeySend) (henc : o'.encryptEpoch = o.encryptEpoch)
    (hpid : o'.packetIdSend = (packetIdSendUpdateEpoch o.packetIdSend now).1)
    (hout : out = none ∨ (packetIdSendUpdateEpoch o.packetIdSend now).2 = true ∧
      out = some (o.encryptEpoch, o'.packetIdSend.id)) :
    SendKeyInv o' (sent ++ out.toList) := by
  obtain ⟨hnext, hstay⟩ := id_packetIdSendUpdateEpoch o.packetIdSend now hi.id_le
  have hbase : SendKeyInv o' sent := by
    cases hok : (packetIdSendUpdateEpoch o.packetIdSend now).2 with
    | false =>
        have hid : o'.packetIdSend.id = o.packetIdSend.id := by rw [hpid, hstay hok]
        exact ⟨henc.trans (hi.encrypt_eq.trans hsend.symm), hsend ▸ hi.send_ne, hid ▸ hi.id_le,
          by rw [henc, hid]; exact hi.sent_le, hi.sent_sorted⟩
    | true =>
        obtain ⟨hlt, hid⟩ := hnext hok
        rw [← hpid] at hid
        refine ⟨henc.trans (hi.encrypt_eq.trans hsend.symm), hsend ▸ hi.send_ne, by omega,
          fun x hx => ?_, hi.sent_sorted⟩
        rw [henc]
        exact le_of_lt (lt_of_le_of_lt (hi.sent_le x hx) (sentKey_lt_of_id_lt _ (by omega)))
  rcases hout with rfl | ⟨hok, rfl⟩
  · simpa using hbase
  · -- the written pair is the current epoch and counter, above every earlier pair
    obtain ⟨-, hid⟩ := hnext hok
    rw [← hpid] at hid
    have hnew : ∀ x ∈ sent, sentKey x < sentKey (o.encryptEpoch, o'.packetIdSend.id) := fun x hx =>
      lt_of_le_of_lt (hi.sent_le x hx) (sentKey_lt_of_id_lt _ (by omega))
    refine ⟨hbase.encrypt_eq, hbase.send_ne, hbase.id_le, fun x hx => ?_, ?_⟩
    · rw [List.mem_append] at hx
      rcases hx with hx | hx
      · exact hbase.sent_le x hx
      · simp only [Option.toList_some, List.mem_singleton] at hx
        rw [hx, henc]
    · rw [Option.toList_some, List.pairwise_append]
      exact ⟨hi.sent_sorted, List.pairwise_singleton _ _,
        fun x hx y hy => (List.mem_singleton.mp hy) ▸ hnew x hx⟩

/-- One step keeps the invariant. -/
theorem SendKeyInv.step (hi : SendKeyInv o sent) {out : Option (UInt16 × UInt64)}
    (hs : EpochStep o out o') : SendKeyInv o' (sent ++ out.toList) := by
  rcases epochStep_cases hi.encrypt_eq hs with
    ⟨rfl, henc, hlt, hpid⟩ | ⟨rfl, hsend, henc, hpid⟩ | ⟨now, hsend, henc, hpid, hout⟩
  · simpa using hi.rekey henc hlt hpid
  · have hsame : SendKeyInv o' sent :=
      ⟨henc.trans (hi.encrypt_eq.trans hsend.symm), hsend ▸ hi.send_ne, hpid ▸ hi.id_le,
        by rw [henc, hpid]; exact hi.sent_le, hi.sent_sorted⟩
    simpa using hsame
  · exact hi.update now hsend henc hpid hout

end Step

theorem sendKeyInv_of_epochReach {o : EpochOpts} {sent : List (UInt16 × UInt64)}
    (h : EpochReach o sent) : SendKeyInv o sent := by
  induction h with
  | init hinit => exact sendKeyInv_epochInitKeyCtx hinit
  | step _ hs ih => exact ih.step hs

/-- **Send keys are never reused.** Along any run from `epoch_init_key_ctx`, the encrypt key is
the nonzero send epoch key and no `(epoch, packet id)` pair is written twice; every step keeps the
send key or moves it up, and the counter is reset only with a strictly later encrypt key. -/
theorem epoch_send_key_never_reused {o : EpochOpts} {sent : List (UInt16 × UInt64)}
    (h : EpochReach o sent) :
    o.encryptEpoch = o.epochKeySend ∧ o.epochKeySend ≠ 0 ∧ sent.Nodup ∧
      ∀ out o', EpochStep o out o' →
        o.epochKeySend ≤ o'.epochKeySend ∧
          ((o'.encryptEpoch = o.encryptEpoch ∧ (o'.packetIdSend = o.packetIdSend ∨
              ∃ now, o'.packetIdSend = (packetIdSendUpdateEpoch o.packetIdSend now).1)) ∨
            (o.encryptEpoch < o'.encryptEpoch ∧ o'.packetIdSend = resetPacketIdSend)) := by
  have hi := sendKeyInv_of_epochReach h
  have hnodup : sent.Nodup := hi.sent_sorted.imp fun hab heq => by
    subst heq
    exact lt_irrefl _ hab
  refine ⟨hi.encrypt_eq, hi.send_ne, hnodup, fun out o' hs => ?_⟩
  rcases epochStep_cases hi.encrypt_eq hs with
    ⟨-, henc, hlt, hpid⟩ | ⟨-, hsend, henc, hpid⟩ | ⟨now, hsend, henc, hpid, -⟩
  · refine ⟨?_, .inr ⟨hlt, hpid⟩⟩
    rw [← hi.encrypt_eq, ← henc, UInt16.le_iff_toNat_le]
    exact le_of_lt (UInt16.lt_iff_toNat_lt.mp hlt)
  · exact ⟨by rw [hsend, UInt16.le_iff_toNat_le], .inl ⟨henc, .inl hpid⟩⟩
  · exact ⟨by rw [hsend, UInt16.le_iff_toNat_le], .inl ⟨henc, .inr ⟨now, hpid⟩⟩⟩

theorem epoch_send_key_never_reused_two_keys :
    ∃ o sent, EpochReach o sent ∧ sent = [(1, 1), (2, 1)] ∧ o.encryptEpoch = 2 ∧
      o.epochKeySend = 2 ∧ sent.Nodup := by
  have h₀ : epochInitKeyCtx clearedEpochOpts 1 1 4 =
      some ⟨1, 5, 1, 1, true, 0, epochWindow 2 4, resetPacketIdSend⟩ := by decide
  have h₁ : packetIdWriteEpoch resetPacketIdSend 1 ⟨8, 0, 0, some (List.replicate 8 0)⟩ 5 =
      some (⟨1, 5⟩, ⟨8, 0, 8, some [0, 1, 0, 0, 0, 0, 0, 1]⟩, true) := by decide
  have h₂ : epochIterateSendKey ⟨1, 5, 1, 1, true, 0, epochWindow 2 4, ⟨1, 5⟩⟩ =
      some ⟨2, 5, 2, 1, true, 0, epochWindow 2 4, resetPacketIdSend⟩ := by decide
  have h₃ : packetIdWriteEpoch resetPacketIdSend 2 ⟨8, 0, 0, some (List.replicate 8 0)⟩ 7 =
      some (⟨1, 7⟩, ⟨8, 0, 8, some [0, 2, 0, 0, 0, 0, 0, 1]⟩, true) := by decide
  have hreach := (((EpochReach.init h₀).step (.writeEpoch h₁)).step
    (.iterateSendKey (by decide) h₂)).step (.writeEpoch h₃)
  obtain ⟨-, -, hnodup, -⟩ := epoch_send_key_never_reused hreach
  exact ⟨_, _, hreach, rfl, rfl, rfl, hnodup⟩

end OpenVpn
