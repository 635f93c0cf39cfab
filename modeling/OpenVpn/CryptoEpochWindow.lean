import OpenVpn.CryptoEpoch

/-! The window of future receive keys. From `epoch_init_key_ctx`, the future keys carry the
epochs that follow the decrypt key's and the receive epoch key is the last of them. Replacing the
decrypt key by a future key that `epoch_lookup_decrypt_key` returned keeps this window, and moves
the old decrypt key to the retiring slot, except for the highest future key: replacing by that one
zeroes its slot before `epoch_generate_future_receive_keys` asserts on it. -/

namespace OpenVpn

/-- The epochs `start, start + 1, ...`, `n` of them. -/
def epochWindow (start n : Nat) : List UInt16 := List.ofFn fun i : Fin n => UInt16.ofNat (start + i)

@[simp]
theorem length_epochWindow (start n : Nat) : (epochWindow start n).length = n := by
  simp [epochWindow]

theorem getElem_epochWindow {start n i : Nat} (h : i < (epochWindow start n).length) :
    (epochWindow start n)[i] = UInt16.ofNat (start + i) := by
  simp [epochWindow]

theorem getElem?_epochWindow (start n i : Nat) :
    (epochWindow start n)[i]? = if i < n then some (UInt16.ofNat (start + i)) else none := by
  simp [epochWindow, List.getElem?_ofFn]

theorem epochWindow_zero (start : Nat) : epochWindow start 0 = [] := rfl

theorem epochWindow_succ (start n : Nat) :
    epochWindow start (n + 1) = UInt16.ofNat start :: epochWindow (start + 1) n := by
  simp only [epochWindow, List.ofFn_succ, Fin.val_zero, Nat.add_zero, Fin.val_succ]
  congr 2
  funext i
  rw [Nat.add_assoc, Nat.add_comm 1]

theorem epochWindow_add (start m n : Nat) :
    epochWindow start (m + n) = epochWindow start m ++ epochWindow (start + m) n := by
  apply List.ext_getElem (by simp)
  intro i h₁ h₂
  rw [getElem_epochWindow]
  by_cases hi : i < m
  · rw [List.getElem_append_left (by simpa using hi), getElem_epochWindow]
  · rw [List.getElem_append_right (by simp; omega), getElem_epochWindow]
    simp only [length_epochWindow]
    congr 1
    omega

/-- A window that does not wrap reads as the consecutive epochs. -/
theorem map_toNat_epochWindow (start n : Nat) (hwrap : start + n ≤ 65536) :
    (epochWindow start n).map UInt16.toNat = List.range' start n := by
  apply List.ext_getElem (by simp)
  intro i h₁ h₂
  rw [List.getElem_map, getElem_epochWindow, List.getElem_range',
    UInt16.toNat_ofNat_of_lt' (by simp at h₁; change _ < 65536; omega)]
  simp

/-- The window only depends on its start modulo `2^16`. -/
theorem epochWindow_mod_add (a b n : Nat) : epochWindow (a % 65536 + b) n = epochWindow (a + b) n := by
  apply List.ext_getElem (by simp)
  intro i h₁ h₂
  rw [getElem_epochWindow, getElem_epochWindow]
  apply UInt16.toNat_inj.mp
  rw [UInt16.toNat_ofNat', UInt16.toNat_ofNat']
  omega

/-- Every epoch of a window is nonzero exactly when the window stops at `65535`. -/
theorem epochWindow_all_pos (start n : Nat) (hstart : 0 < start) (hwrap : start ≤ 65536)
    (hn : n ≤ 65536) :
    ((epochWindow start n).all fun e => decide (0 < e)) = decide (start + n ≤ 65536) := by
  by_cases h : start + n ≤ 65536
  · rw [decide_eq_true h, List.all_eq_true]
    intro e he
    obtain ⟨i, rfl⟩ := List.mem_ofFn.mp he
    rw [decide_eq_true_iff, UInt16.lt_iff_toNat_lt, UInt16.toNat_ofNat']
    simp only [UInt16.toNat_zero]
    omega
  · rw [decide_eq_false h, Bool.eq_false_iff]
    intro hall
    have hi : 65536 - start < (epochWindow start n).length := by simp; omega
    have hmem := List.getElem_mem hi
    have hzero : (epochWindow start n)[65536 - start] = 0 := by
      rw [getElem_epochWindow, Nat.add_sub_cancel' hwrap]
      rfl
    have := List.all_eq_true.mp hall _ hmem
    rw [hzero] at this
    exact absurd this (by decide)

theorem regenerateRecvKeys_eq (recv : UInt16) (n : Nat) :
    regenerateRecvKeys recv n = (UInt16.ofNat (recv.toNat + n), epochWindow (recv.toNat + 1) n) := by
  induction n generalizing recv with
  | zero => simp [regenerateRecvKeys, epochWindow_zero]
  | succ n ih =>
      have hr : (epochKeyIterate recv).toNat = (recv.toNat + 1) % 65536 := by
        rw [epochKeyIterate, UInt16.toNat_add, UInt16.toNat_one]
      have hhead : epochKeyIterate recv = UInt16.ofNat (recv.toNat + 1) := by
        apply UInt16.toNat_inj.mp
        rw [hr, UInt16.toNat_ofNat']
      rw [regenerateRecvKeys, ih]
      refine Prod.ext ?_ ?_
      · apply UInt16.toNat_inj.mp
        rw [UInt16.toNat_ofNat', UInt16.toNat_ofNat', hr]
        omega
      · dsimp only
        rw [epochWindow_succ, hr, hhead, epochWindow_mod_add]

theorem ofNat_eq_iff_of_lt {a : Nat} {e : UInt16} (ha : a < 65536) :
    UInt16.ofNat a = e ↔ a = e.toNat := by
  constructor
  · rintro rfl
    rw [UInt16.toNat_ofNat_of_lt' ha]
  · intro h
    apply UInt16.toNat_inj.mp
    rw [UInt16.toNat_ofNat_of_lt' ha, h]

theorem ofNat_lt_iff_of_lt {a : Nat} {e : UInt16} (ha : a < 65536) :
    UInt16.ofNat a < e ↔ a < e.toNat := by
  rw [UInt16.lt_iff_toNat_lt, UInt16.toNat_ofNat_of_lt' ha]

theorem zero_lt_ofNat_iff_of_lt {a : Nat} (ha : a < 65536) : 0 < UInt16.ofNat a ↔ 0 < a := by
  rw [UInt16.lt_iff_toNat_lt, UInt16.toNat_ofNat_of_lt' ha, UInt16.toNat_zero]

/-- The freed future-key array, as the free loop of `epoch_generate_future_receive_keys` leaves it. -/
def freeOldKeys (cur : UInt16) (future : List UInt16) : List UInt16 :=
  future.map fun e => if 0 < e ∧ e < cur then 0 else e

section Generate

variable (p : EpochOpts) (L c k : Nat)

/-- The number of keys `epoch_generate_future_receive_keys` regenerates, when the freed array
starts with `k` free slots followed by the epochs after the decrypt epoch. -/
theorem numKeysGenerate_eq (count : UInt16) (hcount : count.toNat = L)
    (hc : p.decryptEpoch.toNat = c) (hlt : L < 65536) (hkL : k ≤ L) (hrecv : p.epochKeyRecv.toNat + k = c + L) :
    (p.decryptEpoch + count - UInt16.ofNat (c + L - k)).toNat = k := by
  have hr := p.epochKeyRecv.toNat_lt
  have hd := p.decryptEpoch.toNat_lt
  rw [UInt16.toNat_sub, UInt16.toNat_add, hcount, UInt16.toNat_ofNat_of_lt' (by change _ < 65536; omega),
    hc]
  omega

/-- `epoch_generate_future_receive_keys` on an array whose first `k` slots are free and whose
other slots follow the decrypt epoch: it fills the window after the decrypt epoch, or asserts when
that window passes `65535`. -/
theorem epochGenerateFutureReceiveKeys_eq (hL : p.futureEpochs.length = L)
    (hc : p.decryptEpoch.toNat = c) (hinit : p.initialized = true) (hpos : 0 < L)
    (hlt : L < 65536)
    (hfree : freeOldKeys p.decryptEpoch p.futureEpochs =
      List.replicate k 0 ++ epochWindow (c + 1) (L - k))
    (hkL : k ≤ L) (hrecv : p.epochKeyRecv.toNat + k = c + L)
    (hfirst : k = L → p.epochKeyRecv = 1) :
    epochGenerateFutureReceiveKeys p =
      if c + L ≤ 65535 then
        some { p with
          futureEpochs := epochWindow (c + 1) L
          epochKeyRecv := UInt16.ofNat (c + L) }
      else none := by
  have hbound : c + L - k < 65536 := by
    have := p.epochKeyRecv.toNat_lt
    omega
  have hcount : p.futureCount.toNat = L := by
    rw [EpochOpts.futureCount, hL, UInt16.toNat_ofNat_of_lt' hlt]
  have hcount0 : p.futureCount ≠ 0 := by
    intro h
    rw [h] at hcount
    simp at hcount
    omega
  have hcountEq : p.futureCount = UInt16.ofNat L := by rw [EpochOpts.futureCount, hL]
  -- the highest slot after freeing: the receive epoch, or free when every slot is
  have hlast : (freeOldKeys p.decryptEpoch p.futureEpochs)[L - 1]? =
      some (if k < L then UInt16.ofNat (c + L - k) else 0) := by
    rw [hfree]
    split_ifs with hkl
    · rw [List.getElem?_append_right (by simp; omega), getElem?_epochWindow, if_pos (by simp; omega)]
      congr 2
      simp only [List.length_replicate]
      omega
    · rw [List.getElem?_append_left (by simp; omega), List.getElem?_replicate, if_pos (by omega)]
  have hne : k < L → UInt16.ofNat (c + L - k) ≠ 0 := by
    intro hkl h
    have := congrArg UInt16.toNat h
    rw [UInt16.toNat_ofNat_of_lt' hbound] at this
    simp at this
    omega
  have hcur : (if (if k < L then UInt16.ofNat (c + L - k) else 0) ≠ 0 then
      (if k < L then UInt16.ofNat (c + L - k) else 0) else 1) = UInt16.ofNat (c + L - k) := by
    by_cases hkl : k < L
    · simp [hkl, hne hkl]
    · have h1 := hfirst (by omega)
      rw [h1] at hrecv
      simp only [hkl, if_false, ne_eq, not_true_eq_false]
      apply UInt16.toNat_inj.mp
      rw [UInt16.toNat_ofNat_of_lt' hbound]
      simp at hrecv ⊢
      omega
  -- the highest slot before freeing passes the assertion
  obtain ⟨h0, hh0, hassert⟩ : ∃ h0, p.futureEpochs[L - 1]? = some h0 ∧
      (p.epochKeyRecv = 1 ∨ h0 = p.epochKeyRecv) := by
    have hidx : L - 1 < p.futureEpochs.length := by omega
    refine ⟨p.futureEpochs[L - 1], List.getElem?_eq_getElem hidx, ?_⟩
    by_cases hkl : k < L
    · right
      have hmap := hlast
      rw [if_pos hkl, freeOldKeys, List.getElem?_map, List.getElem?_eq_getElem hidx] at hmap
      simp only [Option.map_some, Option.some.injEq] at hmap
      split_ifs at hmap
      · exact absurd hmap.symm (hne hkl)
      · rw [hmap]
        apply UInt16.toNat_inj.mp
        rw [UInt16.toNat_ofNat_of_lt' hbound]
        omega
    · exact .inl (hfirst (by omega))
  have hassertB : (decide (p.epochKeyRecv = 1) || decide (h0 = p.epochKeyRecv)) = true := by
    simpa using hassert
  have hnum := numKeysGenerate_eq p L c k p.futureCount hcount hc hlt hkL hrecv
  have hzero : ((List.range k).all fun i =>
      decide ((freeOldKeys p.decryptEpoch p.futureEpochs)[i]? = some 0)) = true := by
    rw [List.all_eq_true]
    intro i hi
    rw [List.mem_range] at hi
    rw [hfree, List.getElem?_append_left (by simpa using hi), List.getElem?_replicate, if_pos hi]
    simp
  have hregen := regenerateRecvKeys_eq p.epochKeyRecv k
  have hwindow : List.drop k (freeOldKeys p.decryptEpoch p.futureEpochs) ++
      (regenerateRecvKeys p.epochKeyRecv k).2 = epochWindow (c + 1) L := by
    rw [hfree, List.drop_left' (List.length_replicate), hregen,
      show p.epochKeyRecv.toNat + 1 = c + 1 + (L - k) by omega, ← epochWindow_add,
      Nat.sub_add_cancel hkL]
  have hrecvNew : (regenerateRecvKeys p.epochKeyRecv k).1 = UInt16.ofNat (c + L) := by
    rw [hregen, hrecv]
  have hallpos : ((epochWindow (c + 1) L).all fun e => decide (0 < e)) = decide (c + L ≤ 65535) := by
    rw [epochWindow_all_pos _ _ (by omega) (by have := p.decryptEpoch.toNat_lt; omega) (by omega)]
    simp only [decide_eq_decide]
    omega
  have hfold : List.map (fun e => if 0 < e ∧ e < p.decryptEpoch then 0 else e) p.futureEpochs =
      freeOldKeys p.decryptEpoch p.futureEpochs := rfl
  unfold epochGenerateFutureReceiveKeys
  simp only [hinit, hcount0, hcount, hh0, hfold, hlast, hcur, hassertB, hnum, hzero, hwindow,
    hrecvNew, hallpos, Bool.not_true, Bool.false_eq_true, if_false, Option.bind_eq_bind,
    Option.bind_some]
  by_cases hw : c + L ≤ 65535 <;> simp [hw]

end Generate

theorem epochGenerateFutureReceiveKeys_of_nil (p : EpochOpts) (h : p.futureEpochs = []) :
    epochGenerateFutureReceiveKeys p = none := by
  have hcount : p.futureCount = 0 := by rw [EpochOpts.futureCount, h]; rfl
  unfold epochGenerateFutureReceiveKeys
  cases p.initialized <;> simp [hcount]

/-- `epoch_init_key_ctx` with E1 keys: the future keys are epochs `2 .. N + 1`, unless the
window passes `65535` or is empty. -/
theorem epochInitKeyCtx_eq (o : EpochOpts) (n : UInt16) :
    epochInitKeyCtx o 1 1 n =
      if o.encryptEpoch = 1 ∨ n.toNat = 0 ∨ 65534 < n.toNat then none
      else some { o with
        epochKeyRecv := UInt16.ofNat (1 + n.toNat)
        epochKeySend := 1
        encryptEpoch := 1
        packetIdSend := resetPacketIdSend
        decryptEpoch := 1
        initialized := true
        futureEpochs := epochWindow 2 n.toNat } := by
  unfold epochInitKeyCtx
  by_cases henc : o.encryptEpoch = 1
  · simp [epochInitSendKeyCtx, henc]
  simp only [epochInitSendKeyCtx, henc, Bool.and_self, Bool.not_true, Bool.false_eq_true, if_false,
    decide_true, Option.bind_eq_bind, Option.bind_some]
  by_cases hn : n.toNat = 0
  · rw [epochGenerateFutureReceiveKeys_of_nil _ (by simp [hn])]
    simp [hn]
  have hfree : freeOldKeys 1 (List.replicate n.toNat 0) =
      List.replicate n.toNat 0 ++ epochWindow (1 + 1) (n.toNat - n.toNat) := by
    simp [freeOldKeys, epochWindow_zero]
  rw [epochGenerateFutureReceiveKeys_eq _ n.toNat 1 n.toNat (by simp) rfl rfl (by omega)
    (by have := n.toNat_lt; omega) hfree le_rfl (by simp) (fun _ => rfl)]
  by_cases hw : n.toNat ≤ 65534
  · rw [if_pos (by omega), if_neg (by simp only [false_or]; omega)]
  · rw [if_neg (by omega), if_pos (by simp only [false_or]; omega)]

/-- Freeing the keys below the new decrypt epoch `e`, after the slot of `e` has been zeroed: the
slots up to that of `e` are free and the others keep their epochs. -/
theorem freeOldKeys_set_epochWindow (d L i : Nat) (e : UInt16) (he : e.toNat = d + 1 + i)
    (hi : i < L) (hwrap : d + L ≤ 65535) :
    freeOldKeys e ((epochWindow (d + 1) L).set i 0) =
      List.replicate (i + 1) 0 ++ epochWindow (e.toNat + 1) (L - (i + 1)) := by
  apply List.ext_getElem (by simp [freeOldKeys]; omega)
  intro j h₁ h₂
  have hj : j < L := by simpa [freeOldKeys] using h₁
  simp only [freeOldKeys, List.getElem_map]
  -- the slots below that of `e` are freed, that of `e` is already zero, the others stay
  rcases Nat.lt_trichotomy j i with hlt | rfl | hgt
  · have hpos : 0 < UInt16.ofNat (d + 1 + j) := by
      rw [zero_lt_ofNat_iff_of_lt (by omega)]
      omega
    have hold : UInt16.ofNat (d + 1 + j) < e := by
      rw [ofNat_lt_iff_of_lt (by omega)]
      omega
    rw [List.getElem_set_ne (by omega), getElem_epochWindow, if_pos ⟨hpos, hold⟩,
      List.getElem_append_left (by simp; omega), List.getElem_replicate]
  · rw [List.getElem_set_self, if_neg (by simp), List.getElem_append_left (by simp),
      List.getElem_replicate]
  · have hnew : ¬UInt16.ofNat (d + 1 + j) < e := by
      rw [ofNat_lt_iff_of_lt (by omega)]
      omega
    rw [List.getElem_set_ne (by omega), getElem_epochWindow, if_neg (fun h => hnew h.2),
      List.getElem_append_right (by simp; omega), getElem_epochWindow]
    simp only [List.length_replicate]
    congr 1
    omega

/-- The window of future receive keys: the `L` epochs after the decrypt epoch, the last of them
the receive epoch key, all below `65536`. -/
structure RecvWindow (o : EpochOpts) : Prop where
  initialized : o.initialized = true
  length_pos : 0 < o.futureEpochs.length
  decrypt_pos : 0 < o.decryptEpoch.toNat
  no_wrap : o.decryptEpoch.toNat + o.futureEpochs.length ≤ 65535
  future_eq : o.futureEpochs = epochWindow (o.decryptEpoch.toNat + 1) o.futureEpochs.length
  recv_eq : o.epochKeyRecv = UInt16.ofNat (o.decryptEpoch.toNat + o.futureEpochs.length)

namespace RecvWindow

variable {o : EpochOpts} (hw : RecvWindow o)
include hw

theorem futureCount_toNat : o.futureCount.toNat = o.futureEpochs.length := by
  have := hw.no_wrap
  rw [EpochOpts.futureCount, UInt16.toNat_ofNat_of_lt' (by change _ < 65536; omega)]

theorem getElem?_futureEpochs (j : Nat) :
    o.futureEpochs[j]? =
      if j < o.futureEpochs.length then some (UInt16.ofNat (o.decryptEpoch.toNat + 1 + j))
      else none := by
  conv_lhs => rw [hw.future_eq]
  rw [getElem?_epochWindow]

theorem getElem_futureEpochs {j : Nat} (hj : j < o.futureEpochs.length) :
    o.futureEpochs[j] = UInt16.ofNat (o.decryptEpoch.toNat + 1 + j) := by
  have h := hw.getElem?_futureEpochs j
  rw [List.getElem?_eq_getElem hj, if_pos hj] at h
  exact Option.some.inj h

/-- The search loop of `epoch_replace_update_recv_key` stops at the distance of the epoch from
the decrypt epoch. -/
theorem findIdx_futureEpochs {e : UInt16} {i : Nat} (he : e.toNat = o.decryptEpoch.toNat + 1 + i)
    (hi : i < o.futureEpochs.length) : o.futureEpochs.findIdx (· = e) = i := by
  have hwrap := hw.no_wrap
  apply (List.findIdx_eq hi).mpr
  constructor
  · rw [hw.getElem_futureEpochs hi, decide_eq_true_iff, ofNat_eq_iff_of_lt (by omega)]
    exact he.symm
  · intro j hj
    have hb : o.decryptEpoch.toNat + 1 + j < 65536 := by omega
    rw [hw.getElem_futureEpochs (by omega), decide_eq_false_iff_not, ofNat_eq_iff_of_lt hb]
    omega

theorem map_toNat_futureEpochs :
    o.futureEpochs.map UInt16.toNat = List.range' (o.decryptEpoch.toNat + 1) o.futureEpochs.length := by
  have := hw.no_wrap
  rw [hw.future_eq, map_toNat_epochWindow _ _ (by omega), length_epochWindow]

theorem toNat_epochKeyRecv :
    o.epochKeyRecv.toNat = o.decryptEpoch.toNat + o.futureEpochs.length := by
  have := hw.no_wrap
  rw [hw.recv_eq, UInt16.toNat_ofNat_of_lt' (by change _ < 65536; omega)]

end RecvWindow

/-- Replacing the decrypt key by the future key at index `i` keeps the window and retires the
old decrypt key, except for the highest future key, where the regeneration asserts. -/
theorem epochReplaceUpdateRecvKey_window {o : EpochOpts} {e : UInt16} {i : Nat}
    (hw : RecvWindow o) (hlook : epochLookupDecryptKey o e = some (.future i)) :
    (i + 1 < o.futureEpochs.length →
      epochReplaceUpdateRecvKey o e = some { sendKeyAfterReplace o e with
        retiringEpoch := o.decryptEpoch
        decryptEpoch := e
        futureEpochs := epochWindow (e.toNat + 1) o.futureEpochs.length
        epochKeyRecv := UInt16.ofNat (e.toNat + o.futureEpochs.length) }) ∧
    (i + 1 = o.futureEpochs.length → epochReplaceUpdateRecvKey o e = none) := by
  obtain ⟨he, hi, hedge⟩ := epochLookupDecryptKey_future hlook
  rw [hw.futureCount_toNat] at hi hedge
  have hwrap := hw.no_wrap
  have hd := hw.decrypt_pos
  have hne : e ≠ 0 := by
    intro h0
    rw [h0, UInt16.toNat_zero] at he
    omega
  have hget : o.futureEpochs[i]? = some e := by
    have hb : o.decryptEpoch.toNat + 1 + i < 65536 := by omega
    rw [hw.getElem?_futureEpochs, if_pos hi, Option.some.injEq, ofNat_eq_iff_of_lt hb]
    exact he.symm
  rw [epochReplaceUpdateRecvKey_eq o e i (hw.findIdx_futureEpochs he hi)
    (by rw [hw.futureCount_toNat]; exact hi) hget hne]
  constructor
  · intro hlast
    have hfree := freeOldKeys_set_epochWindow _ _ i e he hi hwrap
    rw [← hw.future_eq] at hfree
    have hrecv : o.epochKeyRecv.toNat + (i + 1) = e.toNat + o.futureEpochs.length := by
      rw [hw.recv_eq, UInt16.toNat_ofNat_of_lt' (by change _ < 65536; omega)]
      omega
    rw [epochGenerateFutureReceiveKeys_eq _ o.futureEpochs.length e.toNat (i + 1) (by simp) rfl
      (by simpa using hw.initialized) hw.length_pos (by omega) hfree (by omega) (by simpa using hrecv)
      (fun h => absurd h (by omega)), if_pos (by omega)]
  · intro hlast
    -- the slot of the highest future key has just been zeroed
    have hcount : (EpochOpts.futureCount { sendKeyAfterReplace o e with
        retiringEpoch := o.decryptEpoch
        decryptEpoch := e
        futureEpochs := o.futureEpochs.set i 0 }).toNat = i + 1 := by
      rw [EpochOpts.futureCount, List.length_set, UInt16.toNat_ofNat_of_lt' (by change _ < 65536; omega)]
      exact hlast.symm
    have hrecv : o.epochKeyRecv.toNat = o.decryptEpoch.toNat + o.futureEpochs.length := by
      rw [hw.recv_eq, UInt16.toNat_ofNat_of_lt' (by change _ < 65536; omega)]
    apply epochGenerateFutureReceiveKeys_of_highest_ne 0
    · rw [hcount, Nat.add_sub_cancel, List.getElem?_set_self hi]
    · intro h1
      rw [epochKeyRecv_sendKeyAfterReplace] at h1
      rw [h1] at hrecv
      simp at hrecv
      omega
    · intro h0
      rw [epochKeyRecv_sendKeyAfterReplace] at h0
      rw [← h0] at hrecv
      simp at hrecv
      omega

theorem recvWindow_of_epochInitKeyCtx {o₀ o : EpochOpts} {n : UInt16}
    (h : epochInitKeyCtx o₀ 1 1 n = some o) : RecvWindow o ∧ o.futureEpochs.length = n.toNat := by
  rw [epochInitKeyCtx_eq] at h
  split_ifs at h with hbad
  rw [← Option.some.inj h]
  simp only [not_or, not_lt] at hbad
  obtain ⟨-, hn, hwrap⟩ := hbad
  refine ⟨⟨rfl, ?_, by simp, ?_, ?_, ?_⟩, length_epochWindow _ _⟩
  · simp only [length_epochWindow]
    omega
  · simp only [length_epochWindow, UInt16.toNat_one]
    omega
  · simp
  · simp

/-- One accepted replacement below the highest future key moves the window to the new decrypt
epoch and retires the old one. -/
theorem recvWindow_epochReplaceUpdateRecvKey {o o' : EpochOpts} {e : UInt16} {i : Nat}
    (hw : RecvWindow o) (hlook : epochLookupDecryptKey o e = some (.future i))
    (hrep : epochReplaceUpdateRecvKey o e = some o') :
    RecvWindow o' ∧ o'.futureEpochs.length = o.futureEpochs.length ∧ o'.decryptEpoch = e ∧
      o'.retiringEpoch = o.decryptEpoch := by
  obtain ⟨hsucc, hhighest⟩ := epochReplaceUpdateRecvKey_window hw hlook
  obtain ⟨he, hi, hedge⟩ := epochLookupDecryptKey_future hlook
  rw [hw.futureCount_toNat] at hi hedge
  by_cases hl : i + 1 < o.futureEpochs.length
  · rw [hsucc hl] at hrep
    rw [← Option.some.inj hrep]
    refine ⟨⟨by simpa using hw.initialized, by simpa using hw.length_pos,
      by show 0 < e.toNat; omega, ?_, ?_, ?_⟩,
      length_epochWindow _ _, rfl, rfl⟩
    · simp only [length_epochWindow]
      omega
    · simp
    · simp
  · rw [hhighest (by omega)] at hrep
    cases hrep

/-- The states `epoch_init_key_ctx` with `N` future keys and accepted replacements reach. -/
inductive RecvReach (n : UInt16) : EpochOpts → Prop
  | init {o₀ o : EpochOpts} : epochInitKeyCtx o₀ 1 1 n = some o → RecvReach n o
  | replace {o o' : EpochOpts} {e : UInt16} {i : Nat} :
      RecvReach n o → epochLookupDecryptKey o e = some (.future i) →
      epochReplaceUpdateRecvKey o e = some o' → RecvReach n o'

theorem recvWindow_of_recvReach {n : UInt16} {o : EpochOpts} (h : RecvReach n o) :
    RecvWindow o ∧ o.futureEpochs.length = n.toNat := by
  induction h with
  | init hinit => exact recvWindow_of_epochInitKeyCtx hinit
  | replace _ hlook hrep ih =>
      obtain ⟨hw', hlen', -⟩ := recvWindow_epochReplaceUpdateRecvKey ih.1 hlook hrep
      exact ⟨hw', hlen'.trans ih.2⟩

/-- The epoch field of the key a `DecryptKeyRef` points at; an index past the future keys points
at none. -/
def DecryptKeyRef.epoch (o : EpochOpts) : DecryptKeyRef → Option UInt16
  | .decrypt => some o.decryptEpoch
  | .retiring => some o.retiringEpoch
  | .future i => o.futureEpochs[i]?

/-- In every reachable state, `epoch_lookup_decrypt_key` returns a key of the epoch asked for,
and it returns one exactly for the decrypt epoch, a nonzero retiring epoch, and the `N` epochs
after the decrypt epoch up to `65535 - N - 1`; never for epoch 0. -/
theorem epoch_lookup_decrypt_key_exact {n : UInt16} {o : EpochOpts} (hreach : RecvReach n o)
    (e : UInt16) :
    (∀ r, epochLookupDecryptKey o e = some r → r.epoch o = some e) ∧
    ((epochLookupDecryptKey o e).isSome ↔
      e = o.decryptEpoch ∨ (o.retiringEpoch ≠ 0 ∧ e = o.retiringEpoch) ∨
        (o.decryptEpoch.toNat < e.toNat ∧ e.toNat ≤ o.decryptEpoch.toNat + n.toNat ∧
          e.toNat ≤ 65535 - n.toNat - 1)) ∧
    epochLookupDecryptKey o 0 = none := by
  obtain ⟨hw, hlen⟩ := recvWindow_of_recvReach hreach
  have hcount := hw.futureCount_toNat
  have hwrap := hw.no_wrap
  have hpos := hw.decrypt_pos
  have he := e.toNat_lt
  rw [hlen] at hcount hwrap
  refine ⟨fun r hr => ?_, ?_, ?_⟩
  · unfold epochLookupDecryptKey at hr
    split_ifs at hr with hdec hret hrange hedge <;> cases hr
    · exact congrArg some hdec
    · exact congrArg some hret.2
    · -- a future key: the window holds the epoch at its distance from the decrypt epoch
      rw [UInt16.lt_iff_toNat_lt, hcount] at hrange
      rw [DecryptKeyRef.epoch, hw.getElem?_futureEpochs, if_pos (by omega)]
      congr 1
      apply UInt16.toNat_inj.mp
      rw [UInt16.toNat_ofNat_of_lt' (by change _ < 65536; omega)]
      omega
  · unfold epochLookupDecryptKey
    simp only [UInt16.lt_iff_toNat_lt, hcount]
    by_cases hdec : o.decryptEpoch = e
    · simp [hdec]
    · by_cases hret : o.retiringEpoch ≠ 0 ∧ o.retiringEpoch = e
      · rw [if_neg hdec, if_pos hret]
        simp only [Option.isSome_some, true_iff]
        exact Or.inr (Or.inl ⟨hret.1, hret.2.symm⟩)
      · have hdec' : e ≠ o.decryptEpoch := fun h => hdec h.symm
        have hret' : ¬(o.retiringEpoch ≠ 0 ∧ e = o.retiringEpoch) :=
          fun h => hret ⟨h.1, h.2.symm⟩
        rw [if_neg hdec, if_neg hret]
        simp only [hdec', hret', false_or]
        split_ifs with hrange hedge
        · simp only [Option.isSome_none, Bool.false_eq_true, false_iff, not_and, not_le]
          omega
        · simp only [Option.isSome_some, true_iff]
          omega
        · simp only [Option.isSome_none, Bool.false_eq_true, false_iff, not_and, not_le]
          omega
  · -- the decrypt epoch is positive, and the future epochs lie above it
    unfold epochLookupDecryptKey
    have h0 : o.decryptEpoch ≠ 0 := fun h => by rw [h] at hpos; exact absurd hpos (by decide)
    rw [if_neg h0, if_neg fun h => h.1 h.2, if_neg fun h => by
      rw [UInt16.lt_iff_toNat_lt] at h
      exact absurd h.1 (by simp)]

/-- After `epoch_init_key_ctx` with 16 future keys, epoch 10 has a key and epoch 0 none. -/
theorem epoch_lookup_decrypt_key_exact_sixteen :
    RecvReach 16 ⟨1, 17, 1, 1, true, 0, epochWindow 2 16, resetPacketIdSend⟩ ∧
      (epochLookupDecryptKey ⟨1, 17, 1, 1, true, 0, epochWindow 2 16, resetPacketIdSend⟩ 10).isSome ∧
      epochLookupDecryptKey ⟨1, 17, 1, 1, true, 0, epochWindow 2 16, resetPacketIdSend⟩ 0 = none := by
  have hinit : epochInitKeyCtx clearedEpochOpts 1 1 16 =
      some ⟨1, 17, 1, 1, true, 0, epochWindow 2 16, resetPacketIdSend⟩ := by decide
  have hreach := RecvReach.init hinit
  obtain ⟨-, hiff, hzero⟩ := epoch_lookup_decrypt_key_exact hreach 10
  exact ⟨hreach, hiff.mpr (Or.inr (Or.inr ⟨by decide, by decide, by decide⟩)), hzero⟩

theorem epoch_future_window_breaks_at_highest_key (n : UInt16) (o : EpochOpts)
    (hreach : RecvReach n o) (e : UInt16) (i : Nat)
    (hlook : epochLookupDecryptKey o e = some (.future i)) :
    (o.futureEpochs.map UInt16.toNat = List.range' (o.decryptEpoch.toNat + 1) n.toNat ∧
      o.epochKeyRecv.toNat = o.decryptEpoch.toNat + n.toNat) ∧
    (i + 1 < n.toNat → ∃ o', epochReplaceUpdateRecvKey o e = some o' ∧
      o'.futureEpochs.map UInt16.toNat = List.range' (o'.decryptEpoch.toNat + 1) n.toNat ∧
      o'.epochKeyRecv.toNat = o'.decryptEpoch.toNat + n.toNat ∧
      o'.decryptEpoch = e ∧ o'.retiringEpoch = o.decryptEpoch) ∧
    (i + 1 = n.toNat → epochReplaceUpdateRecvKey o e = none) := by
  obtain ⟨hw, hlen⟩ := recvWindow_of_recvReach hreach
  obtain ⟨hsucc, hhighest⟩ := epochReplaceUpdateRecvKey_window hw hlook
  refine ⟨⟨hlen ▸ hw.map_toNat_futureEpochs, hlen ▸ hw.toNat_epochKeyRecv⟩, fun hl => ?_,
    fun hl => hhighest (by omega)⟩
  obtain ⟨o', hrep⟩ : ∃ o', epochReplaceUpdateRecvKey o e = some o' := ⟨_, hsucc (by omega)⟩
  obtain ⟨hw', hlen', hdec, hret⟩ := recvWindow_epochReplaceUpdateRecvKey hw hlook hrep
  refine ⟨o', hrep, ?_, ?_, hdec, hret⟩
  · rw [← hlen, ← hlen']
    exact hw'.map_toNat_futureEpochs
  · rw [← hlen, ← hlen']
    exact hw'.toNat_epochKeyRecv

theorem epoch_future_window_breaks_at_highest_key_sixteen :
    RecvReach 16 ⟨1, 17, 1, 1, true, 0, epochWindow 2 16, resetPacketIdSend⟩ ∧
    epochLookupDecryptKey ⟨1, 17, 1, 1, true, 0, epochWindow 2 16, resetPacketIdSend⟩ 17 =
      some (.future 15) ∧
    epochReplaceUpdateRecvKey ⟨1, 17, 1, 1, true, 0, epochWindow 2 16, resetPacketIdSend⟩ 17 =
      none := by
  have hinit : epochInitKeyCtx clearedEpochOpts 1 1 16 =
      some ⟨1, 17, 1, 1, true, 0, epochWindow 2 16, resetPacketIdSend⟩ := by decide
  have hreach := RecvReach.init hinit
  have hlook : epochLookupDecryptKey ⟨1, 17, 1, 1, true, 0, epochWindow 2 16, resetPacketIdSend⟩ 17 =
      some (.future 15) := by decide
  exact ⟨hreach, hlook,
    (epoch_future_window_breaks_at_highest_key 16 _ hreach 17 15 hlook).2.2 (by decide)⟩

end OpenVpn
