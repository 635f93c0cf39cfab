import OpenVpn.PacketId

/-! Spec lemmas for the receive side of `packet_id.c`: what `packet_id_add` does to the window, in
terms of the newest-first list of its slots; how `packet_id_test` decides; and that a reap pass
only marks slots `SEQ_EXPIRED`. The replay proofs use these and never unfold the functions. -/

namespace OpenVpn

theorem take_append_take {α : Type} (l₁ l₂ : List α) (n : Nat) :
    (l₁ ++ l₂.take n).take n = (l₁ ++ l₂).take n := by
  rw [List.take_append, List.take_append, List.take_take]
  congr 2
  omega

theorem pushUnseen_snd (seq : CircList Int) (id target : UInt64) :
    (pushUnseen seq id target).2 = if id < target then target else id := by
  fun_induction pushUnseen seq id target with
  | case1 seq id h ih =>
      rw [ih, if_pos h]
      split_ifs with h'
      · rfl
      · rw [UInt64.lt_iff_toNat_lt] at h h'
        have := target.toNat_lt
        apply UInt64.toNat_inj.mp
        rw [UInt64.toNat_add_one_of_lt (by omega)] at h' ⊢
        omega
  | case2 seq id h => rw [if_neg h]

theorem toList_pushUnseen (seq : CircList Int) (id target : UInt64) :
    (pushUnseen seq id target).1.toList =
      (List.replicate (target.toNat - id.toNat) seqUnseen ++ seq.toList).take seq.cap := by
  fun_induction pushUnseen seq id target with
  | case1 seq id h ih =>
      rw [UInt64.lt_iff_toNat_lt] at h
      have hsucc : (id + 1).toNat = id.toNat + 1 := by
        have := target.toNat_lt
        exact UInt64.toNat_add_one_of_lt (by omega)
      rw [ih, CircList.toList_push, CircList.cap_push, take_append_take, hsucc,
        show target.toNat - id.toNat = target.toNat - (id.toNat + 1) + 1 by omega,
        List.replicate_succ', List.append_assoc, List.singleton_append]
  | case2 seq id h =>
      rw [UInt64.lt_iff_toNat_lt] at h
      rw [show target.toNat - id.toNat = 0 by omega, List.replicate_zero, List.nil_append,
        List.take_of_length_le seq.length_toList_le]

theorem startsNewList_iff (p : PacketIdRec) (seq : CircList Int) (pin : PacketIdNet) :
    startsNewList p seq pin = true ↔ seq.size = 0 ∨ p.time < pin.time ∨
      (p.seqBacktrack.toNat ≤ pin.id.toNat ∧ p.id.toNat < pin.id.toNat - p.seqBacktrack.toNat) := by
  simp only [startsNewList, Bool.or_eq_true, Bool.and_eq_true, decide_eq_true_eq,
    UInt64.le_iff_toNat_le, UInt64.lt_iff_toNat_lt]
  constructor
  · rintro ((h | h) | ⟨hle, hlt⟩)
    · exact Or.inl h
    · exact Or.inr (Or.inl h)
    · rw [UInt64.toNat_sub_of_le _ _ (UInt64.le_iff_toNat_le.mpr hle)] at hlt
      exact Or.inr (Or.inr ⟨hle, hlt⟩)
  · rintro (h | h | ⟨hle, hlt⟩)
    · exact Or.inl (Or.inl h)
    · exact Or.inl (Or.inr h)
    · rw [← UInt64.toNat_sub_of_le _ _ (UInt64.le_iff_toNat_le.mpr hle)] at hlt
      exact Or.inr ⟨hle, hlt⟩

/-- The highest id from which `packet_id_add` fills the window. -/
def startId (p : PacketIdRec) (seq : CircList Int) (pin : PacketIdNet) : Nat :=
  if startsNewList p seq pin then pin.id.toNat - p.seqBacktrack.toNat else p.id.toNat

/-- The window `packet_id_add` fills, newest first. -/
def startList (p : PacketIdRec) (seq : CircList Int) (pin : PacketIdNet) : List Int :=
  if startsNewList p seq pin then [] else seq.toList

/-- The window after the `while` loop of `packet_id_add`. -/
def filledList (p : PacketIdRec) (seq : CircList Int) (pin : PacketIdNet) : List Int :=
  (List.replicate (pin.id.toNat - startId p seq pin) seqUnseen ++ startList p seq pin).take seq.cap

theorem length_filledList_le (p : PacketIdRec) (seq : CircList Int) (pin : PacketIdNet) :
    (filledList p seq pin).length ≤ seq.cap := by
  simp [filledList]

theorem packetIdAdd_udp (p : PacketIdRec) (pin : PacketIdNet) (now : Int) {seq : CircList Int}
    (hs : p.seqList = some seq) (hnow : seqExpired < now) (hcap : seq.cap < 2 ^ 63)
    (hslot : max (startId p seq pin) pin.id.toNat - pin.id.toNat < (filledList p seq pin).length) :
    ∃ p' seq', packetIdAdd p pin now = some p' ∧ p'.seqList = some seq' ∧
      p'.seqBacktrack = p.seqBacktrack ∧
      p'.time = (if startsNewList p seq pin then pin.time else p.time) ∧
      p'.id.toNat = max (startId p seq pin) pin.id.toNat ∧
      seq'.toList =
        (filledList p seq pin).set (max (startId p seq pin) pin.id.toNat - pin.id.toNat) now := by
  have hW := p.cap_of_some hs
  have hfill := length_filledList_le p seq pin
  unfold packetIdAdd
  split
  · rename_i seq' hs'
    rw [hs] at hs'
    cases hs'
    dsimp only
    set r := startsNewList p seq pin with hr
    set id₀ : UInt64 := if r = true then (if p.seqBacktrack < pin.id then pin.id - p.seqBacktrack
      else 0) else p.id with hid₀def
    have hid₀ : id₀.toNat = startId p seq pin := by
      simp only [hid₀def, startId, ← hr]
      split_ifs with h1 h2
      · rw [UInt64.toNat_sub_of_le _ _
          (UInt64.le_iff_toNat_le.mpr (Nat.le_of_lt (UInt64.lt_iff_toNat_lt.mp h2)))]
      · rw [UInt64.lt_iff_toNat_lt] at h2
        simp only [UInt64.toNat_zero]
        omega
      · rfl
    set pushed := pushUnseen (if r = true then seq.reset else seq) id₀ pin.id with hpushed
    have hlist : pushed.1.toList = filledList p seq pin := by
      rw [hpushed, toList_pushUnseen, hid₀, cap_reset_ite]
      unfold filledList startList
      rw [← hr]
      cases r <;> simp
    have hsnd : pushed.2.toNat = max (startId p seq pin) pin.id.toNat := by
      rw [hpushed, pushUnseen_snd, ← hid₀]
      split_ifs with h <;> rw [UInt64.lt_iff_toNat_lt] at h <;> omega
    have hsize : pushed.1.size = (filledList p seq pin).length := by
      rw [← hlist, CircList.length_toList]
    have hdiff : (pushed.2 - pin.id).toBitVec.toInt =
        ((max (startId p seq pin) pin.id.toNat - pin.id.toNat : Nat) : Int) := by
      have hle : pin.id ≤ pushed.2 := UInt64.le_iff_toNat_le.mpr (by omega)
      rw [BitVec.toInt_eq_toNat_cond, UInt64.toNat_toBitVec, UInt64.toNat_sub_of_le _ _ hle, hsnd]
      split_ifs <;> omega
    rw [hdiff, if_pos ⟨by rw [hsize]; exact_mod_cast hslot, hnow⟩, if_pos (by positivity),
      Int.toNat_natCast]
    refine ⟨_, _, rfl, rfl, rfl, rfl, hsnd, ?_⟩
    rw [CircList.toList_setItem _ _ (by rw [hsize]; exact hslot), hlist]
  · rename_i hs'
    rw [hs] at hs'
    cases hs'

theorem packetIdTest_udp (p : PacketIdRec) (pin : PacketIdNet) (h : p.seqBacktrack ≠ 0)
    (hsize : (p.window h).size < 2 ^ 32) :
    packetIdTest p pin = true ↔ pin.id ≠ 0 ∧ (p.time < pin.time ∨ (pin.time = p.time ∧
      (p.id.toNat < pin.id.toNat ∨
        (p.window h).toList[p.id.toNat - pin.id.toNat]? = some seqUnseen))) := by
  by_cases h0 : pin.id = 0
  · simp [packetIdTest, h0]
  simp only [packetIdTest, h0, if_false, dif_pos h, ne_eq, not_false_eq_true, true_and]
  rw [Nat.mod_eq_of_lt hsize]
  by_cases ht : pin.time = p.time
  · by_cases hlt : p.id < pin.id
    · simp [ht, hlt, UInt64.lt_iff_toNat_lt.mp hlt]
    · have hle : pin.id ≤ p.id := by
        rw [UInt64.lt_iff_toNat_lt] at hlt; rw [UInt64.le_iff_toNat_le]; omega
      rw [UInt64.lt_iff_toNat_lt] at hlt
      simp only [ht, if_true, lt_self_iff_false, false_or, true_and, hlt, if_false,
        UInt64.lt_iff_toNat_lt, UInt64.toNat_sub_of_le _ _ hle, CircList.getElem?_toList]
      split_ifs with hd hd2 <;> first | omega | simp
  · by_cases hlt : pin.time < p.time
    · simp [ht, hlt]; omega
    · simp [ht, hlt]; omega

theorem size_packetIdReapLoop (timeBacktrack now : Int) (seq : CircList Int) (expire : Bool)
    (i n : Nat) : (packetIdReapLoop timeBacktrack now seq expire i n).size = seq.size := by
  induction n generalizing seq expire i with
  | zero => rfl
  | succ n ih =>
      simp only [packetIdReapLoop]
      split_ifs
      · rfl
      · rw [ih, CircList.size_setItem]
      · rw [ih]

/-- The reaper only ever marks slots `SEQ_EXPIRED`. -/
theorem item_packetIdReapLoop (timeBacktrack now : Int) (seq : CircList Int) (expire : Bool)
    (i n : Nat) (hin : i + n ≤ seq.size) {j : Nat} (hj : j < seq.cap) :
    (packetIdReapLoop timeBacktrack now seq expire i n).item j = seq.item j ∨
      (packetIdReapLoop timeBacktrack now seq expire i n).item j = seqExpired := by
  induction n generalizing seq expire i with
  | zero => exact Or.inl rfl
  | succ n ih =>
      have hi : i < seq.cap := by have := seq.size_le; omega
      simp only [packetIdReapLoop]
      split_ifs with hexp hmark
      · exact Or.inl rfl
      · rcases ih (seq.setItem i seqExpired) _ (i + 1) (by simp; omega) (by simpa using hj)
          with h | h
        · rw [h, CircList.item_setItem _ _ hi hj]
          split_ifs
          · exact Or.inr rfl
          · exact Or.inl rfl
        · exact Or.inr h
      · exact ih seq _ (i + 1) (by omega) hj

/-- A slot that is not `SEQ_UNSEEN` stays so through a reap pass. -/
theorem getElem?_toList_packetIdReapLoop (timeBacktrack now : Int) (seq : CircList Int)
    (expire : Bool) {d : Nat} (hd : seq.toList[d]? ≠ some seqUnseen) :
    (packetIdReapLoop timeBacktrack now seq expire 0 seq.size).toList[d]? ≠ some seqUnseen := by
  rw [CircList.getElem?_toList, size_packetIdReapLoop] at *
  split_ifs with h
  · rw [if_pos h] at hd
    have hj : d < seq.cap := by have := seq.size_le; omega
    rcases item_packetIdReapLoop timeBacktrack now seq expire 0 seq.size (by omega) hj with he | he
    · rwa [he]
    · rw [he]; simp [seqExpired, seqUnseen]
  · simp

theorem packetIdAdd_tcp (p : PacketIdRec) (pin : PacketIdNet) (now : Int)
    (hs : p.seqList = none) :
    packetIdAdd p pin now = some { p with time := pin.time, id := pin.id } := by
  unfold packetIdAdd
  split
  · rename_i seq hs'
    rw [hs] at hs'
    cases hs'
  · rfl

theorem packetIdTest_tcp (p : PacketIdRec) (pin : PacketIdNet) (h : p.seqBacktrack = 0) :
    packetIdTest p pin = true ↔ pin.id ≠ 0 ∧
      ((pin.time = p.time ∧ (p.id = 0 ∨ pin.id = p.id + 1)) ∨ (p.time < pin.time ∧ pin.id = 1)) := by
  by_cases h0 : pin.id = 0
  · simp [packetIdTest, h0]
  simp only [packetIdTest, h0, if_false, h, ne_eq, not_true_eq_false, dite_false,
    not_false_eq_true, true_and]
  by_cases ht : pin.time = p.time
  · simp [ht]
  · by_cases hlt : pin.time < p.time
    · simp [ht, hlt]; omega
    · simp [ht, hlt]; omega

/-- `seq'` is `seq` with some slots marked `SEQ_EXPIRED`: no slot becomes `SEQ_UNSEEN`. -/
def Expired (seq seq' : CircList Int) : Prop :=
  seq'.size = seq.size ∧
    ∀ d : Nat, seq.toList[d]? ≠ some seqUnseen → seq'.toList[d]? ≠ some seqUnseen

theorem Expired.refl (seq : CircList Int) : Expired seq seq :=
  ⟨rfl, fun _ h => h⟩

@[simp] theorem time_packetIdReap (p : PacketIdRec) (now : Int) :
    (packetIdReap p now).time = p.time := by
  unfold packetIdReap; split_ifs <;> rfl

@[simp] theorem id_packetIdReap (p : PacketIdRec) (now : Int) : (packetIdReap p now).id = p.id := by
  unfold packetIdReap; split_ifs <;> rfl

@[simp] theorem seqBacktrack_packetIdReap (p : PacketIdRec) (now : Int) :
    (packetIdReap p now).seqBacktrack = p.seqBacktrack := by
  unfold packetIdReap; split_ifs <;> rfl

theorem seqList_packetIdReap_of_some (p : PacketIdRec) (now : Int) {seq : CircList Int}
    (hs : p.seqList = some seq) :
    ∃ seq', (packetIdReap p now).seqList = some seq' ∧ Expired seq seq' := by
  unfold packetIdReap
  split_ifs with h
  · have hw := p.seqList_eq_window (p.seqBacktrack_ne_zero_of_timeBacktrack h)
    rw [hs, Option.some_inj] at hw
    subst hw
    exact ⟨_, rfl, size_packetIdReapLoop .., fun d hd => getElem?_toList_packetIdReapLoop _ _ _ _ hd⟩
  · exact ⟨seq, hs, Expired.refl seq⟩

theorem seqList_packetIdReap_of_none (p : PacketIdRec) (now : Int) (hs : p.seqList = none) :
    (packetIdReap p now).seqList = none := by
  unfold packetIdReap
  split_ifs with h
  · exact absurd (p.timeBacktrack_eq_zero_of_none hs) h
  · exact hs

theorem packetIdReapTest_cases (p : PacketIdRec) (now : Int) :
    packetIdReapTest p now = packetIdReap p now ∨ packetIdReapTest p now = p := by
  unfold packetIdReapTest
  split_ifs
  · exact Or.inl rfl
  · exact Or.inr rfl

end OpenVpn
