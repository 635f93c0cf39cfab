import OpenVpn.ReplayWindow

/-! Exactness of the UDP-mode window of `packet_id.c` when no reap pass runs. `ReplayInv` says that
the window remembers every pin it accepted; here the converse: it remembers nothing else. The window
has `min(seq_backtrack, id)` live slots, and a slot that is not `SEQ_UNSEEN` belongs to a pin accepted
at the current time. Together they make `packet_id_test` accept exactly the fresh pins of the window
and the pins ahead of it. -/

namespace OpenVpn

/-- One test-then-add step with no reap pass: `packet_id_test`, and `packet_id_add` for a pin that
passed it. -/
def packetIdTestAdd (p : PacketIdRec) (pin : PacketIdNet) (now : Int) :
    Option (PacketIdRec × Bool) :=
  if packetIdTest p pin then (packetIdAdd p pin now).map fun p => (p, true) else some (p, false)

/-- The records reachable from `packet_id_init` by test-then-add steps at clock values of at least
2, with the pins accepted on the way. -/
inductive TestAddReach : PacketIdRec → List PacketIdNet → Prop
  | init {seqBacktrack timeBacktrack : Int} {p : PacketIdRec} :
      packetIdInit seqBacktrack timeBacktrack = some p → TestAddReach p []
  | step {p p' : PacketIdRec} {acc : List PacketIdNet} {pin : PacketIdNet} {now : Int} {ok : Bool} :
      TestAddReach p acc → 2 ≤ now → packetIdTestAdd p pin now = some (p', ok) →
      TestAddReach p' (if ok then pin :: acc else acc)

/-- The window holds nothing but the accepted pins: it has one live slot per id below the highest
one, up to `seq_backtrack`, and a slot that is not `SEQ_UNSEEN` is that of an accepted pin. -/
structure WindowExact (p : PacketIdRec) (acc : List PacketIdNet) : Prop where
  size_eq : ∀ seq ∈ p.seqList, seq.size = min p.seqBacktrack.toNat p.id.toNat
  seen_accepted : ∀ seq ∈ p.seqList, ∀ q : PacketIdNet, q.time = p.time →
    q.id.toNat ≤ p.id.toNat → ∀ t ∈ seq.toList[p.id.toNat - q.id.toNat]?, t ≠ seqUnseen → q ∈ acc

theorem PacketIdNet.eq_of_toNat_eq {q pin : PacketIdNet} (hid : q.id.toNat = pin.id.toNat)
    (ht : q.time = pin.time) : q = pin := by
  obtain ⟨qid, qt⟩ := q
  obtain ⟨pid, pt⟩ := pin
  have : qid = pid := UInt64.toNat_inj.mp hid
  simp only at ht
  rw [this, ht]

/-- A slot among the pushed `SEQ_UNSEEN` ones holds `SEQ_UNSEEN`. -/
theorem eq_of_mem_getElem?_take_replicate_append {α : Type} {a t : α} {L : List α} {k W d : Nat}
    (hd : d < k) (ht : t ∈ ((List.replicate k a ++ L).take W)[d]?) : t = a := by
  rw [Option.mem_def, List.getElem?_take] at ht
  split_ifs at ht
  · rw [List.getElem?_append_left (by rw [List.length_replicate]; exact hd),
      List.getElem?_replicate, if_pos hd] at ht
    exact (Option.some_inj.mp ht).symm

theorem windowExact_packetIdInit {seqBacktrack timeBacktrack : Int} {p₀ : PacketIdRec}
    (hinit : packetIdInit seqBacktrack timeBacktrack = some p₀) : WindowExact p₀ [] := by
  unfold packetIdInit at hinit
  split_ifs at hinit with hz h
  · cases hinit
    exact ⟨fun seq h => absurd h (Option.not_mem_none seq),
      fun seq h => absurd h (Option.not_mem_none seq)⟩
  · cases hinit
    refine ⟨fun seq hseq => ?_, fun seq hseq q _ _ t ht _ => ?_⟩
    · rw [Option.mem_def, Option.some_inj] at hseq
      subst hseq
      exact (Nat.min_zero _).symm
    · rw [Option.mem_def, Option.some_inj] at hseq
      subst hseq
      simp at ht

/-- A UDP-mode `packet_id_add` after a passed test keeps the window exact, with the new pin
accepted. The hypotheses are what `packetIdAdd_udp` and `packetIdTest_udp` say. -/
theorem windowExact_packetIdAdd_udp {p p' : PacketIdRec} {acc : List PacketIdNet}
    {pin : PacketIdNet} {now : Int} {seq seq' : CircList Int} (hs : p.seqList = some seq)
    (hexact : WindowExact p acc)
    (htime : p.time < pin.time ∨ (pin.time = p.time ∧ (p.id.toNat < pin.id.toNat ∨
      seq.toList[p.id.toNat - pin.id.toNat]? = some seqUnseen)))
    (hseq' : p'.seqList = some seq') (hsb' : p'.seqBacktrack = p.seqBacktrack)
    (htime' : p'.time = if startsNewList p seq pin then pin.time else p.time)
    (hid' : p'.id.toNat = max (startId p seq pin) pin.id.toNat)
    (hlist' : seq'.toList =
      (filledList p seq pin).set (max (startId p seq pin) pin.id.toNat - pin.id.toNat) now) :
    WindowExact p' (pin :: acc) := by
  have hW := p.cap_of_some hs
  have hL : seq.toList.length = min p.seqBacktrack.toNat p.id.toNat := by
    rw [CircList.length_toList, hexact.size_eq seq hs]
  -- the pin is at the time of the new record: a later time restarts the window
  have hpt : pin.time = p'.time := by
    rw [htime']
    split_ifs with hr
    · rfl
    · rw [startsNewList_iff] at hr
      push Not at hr
      rcases htime with h | ⟨h, _⟩ <;> omega
  constructor
  · intro s hs'
    rw [hseq', Option.mem_def, Option.some_inj] at hs'
    subst hs'
    rw [← CircList.length_toList, hlist', List.length_set, hsb', hid']
    unfold filledList startList startId
    by_cases hr : startsNewList p seq pin
    · simp only [if_pos hr, List.append_nil, List.length_take, List.length_replicate]
      omega
    · simp only [if_neg hr, List.length_take, List.length_append, List.length_replicate, hL]
      omega
  · intro s hs' q hqt hqle t ht hne
    rw [hseq', Option.mem_def, Option.some_inj] at hs'
    subst hs'
    by_cases hq : q.id.toNat = pin.id.toNat
    · -- the slot just set is the new pin's
      rw [PacketIdNet.eq_of_toNat_eq hq (hqt.trans hpt.symm)]
      exact List.mem_cons_self
    apply List.mem_cons_of_mem
    rw [hlist', hid', List.getElem?_set_ne (by omega)] at ht
    rw [hid'] at hqle
    unfold filledList startList startId at ht
    unfold startId at hqle
    by_cases hr : startsNewList p seq pin
    · -- a restarted window holds only the pushed `SEQ_UNSEEN` slots and the new pin's
      simp only [if_pos hr] at ht hqle
      rw [List.append_nil, Option.mem_def, List.getElem?_take] at ht
      split_ifs at ht
      · rw [List.getElem?_replicate, Option.ite_none_right_eq_some, Option.some_inj] at ht
        exact absurd ht.2.symm hne
    simp only [if_neg hr] at ht hqle
    have hqt' : q.time = p.time := by rw [hqt, htime', if_neg hr]
    by_cases hahead : p.id.toNat < pin.id.toNat
    · by_cases hnew : p.id.toNat < q.id.toNat
      · -- an id between the old and the new highest one was pushed as `SEQ_UNSEEN`
        exact absurd (eq_of_mem_getElem?_take_replicate_append (by omega) ht) hne
      · -- an id at most the old highest one: its slot moved up by the number of pushed ids
        rw [show max p.id.toNat pin.id.toNat - q.id.toNat =
            (p.id.toNat - q.id.toNat) + (pin.id.toNat - p.id.toNat) by omega,
          getElem?_take_replicate_append] at ht
        split_ifs at ht
        · exact hexact.seen_accepted seq hs q hqt' (by omega) t ht hne
        · cases ht
    · -- the new id is behind the highest one: nothing was pushed
      rw [show pin.id.toNat - p.id.toNat = 0 by omega, List.replicate_zero, List.nil_append,
        List.take_of_length_le seq.length_toList_le,
        show max p.id.toNat pin.id.toNat = p.id.toNat by omega] at ht
      exact hexact.seen_accepted seq hs q hqt' (by omega) t ht hne

/-- One test-then-add step keeps both invariants. -/
theorem testAddStep_inv {p p' : PacketIdRec} {acc : List PacketIdNet} {pin : PacketIdNet}
    {now : Int} {ok : Bool} (hinv : ReplayInv p acc) (hexact : WindowExact p acc) (hnow : 2 ≤ now)
    (hstep : packetIdTestAdd p pin now = some (p', ok)) :
    ReplayInv p' (if ok then pin :: acc else acc) ∧
      WindowExact p' (if ok then pin :: acc else acc) := by
  unfold packetIdTestAdd at hstep
  by_cases htest : packetIdTest p pin = true
  · rw [if_pos htest] at hstep
    obtain ⟨p₁, hadd, hinv₁⟩ := replayInv_packetIdAdd hinv htest hnow
    rw [hadd, Option.map_some, Option.some_inj, Prod.mk.injEq] at hstep
    obtain ⟨rfl, rfl⟩ := hstep
    refine ⟨hinv₁, ?_⟩
    cases hs : p.seqList with
    | none =>
        -- TCP mode keeps no window
        rw [packetIdAdd_tcp p pin now hs, Option.some_inj] at hadd
        subst hadd
        exact ⟨fun seq h => absurd h (by simp [hs]), fun seq h => absurd h (by simp [hs])⟩
    | some seq =>
        obtain ⟨-, htime, -, p₂, seq', hadd₂, hseq', hsb', htime', hid', hlist'⟩ :=
          packetIdAdd_udp_of_test hinv.seqBacktrack_le htest hnow hs
        rw [hadd, Option.some_inj] at hadd₂
        subst hadd₂
        exact windowExact_packetIdAdd_udp hs hexact htime hseq' hsb' htime' hid' hlist'
  · rw [if_neg htest, Option.some_inj, Prod.mk.injEq] at hstep
    obtain ⟨rfl, rfl⟩ := hstep
    exact ⟨hinv, hexact⟩

theorem testAddReach_inv {p : PacketIdRec} {acc : List PacketIdNet} (h : TestAddReach p acc) :
    ReplayInv p acc ∧ WindowExact p acc := by
  induction h with
  | init hinit => exact ⟨replayInv_packetIdInit hinit, windowExact_packetIdInit hinit⟩
  | step _ hnow hstep ih => exact testAddStep_inv ih.1 ih.2 hnow hstep

/-- In an exact window, the slot of a pin at the current time and at most the highest id is
`SEQ_UNSEEN` exactly when it is inside the window and the pin was not accepted. -/
theorem WindowExact.unseen_iff {p : PacketIdRec} {acc : List PacketIdNet}
    (hexact : WindowExact p acc) (hinv : ReplayInv p acc) (hW : p.seqBacktrack ≠ 0)
    {pin : PacketIdNet} (ht : pin.time = p.time) (hle : pin.id.toNat ≤ p.id.toNat) :
    (p.window hW).toList[p.id.toNat - pin.id.toNat]? = some seqUnseen ↔
      p.id.toNat - pin.id.toNat < min p.seqBacktrack.toNat p.id.toNat ∧ pin ∉ acc := by
  have hwin := p.seqList_eq_window hW
  have hsize := hexact.size_eq _ hwin
  constructor
  · intro hslot
    refine ⟨?_, fun hmem => ?_⟩
    · have := (List.getElem?_eq_some_iff.mp hslot).1
      rwa [CircList.length_toList, hsize] at this
    · rcases hinv.remembers pin hmem with hlt | ⟨_, _, hseen⟩
      · omega
      · exact hseen _ hwin hslot
  · rintro ⟨hlt, hfresh⟩
    have hlt' : p.id.toNat - pin.id.toNat < (p.window hW).toList.length := by
      rwa [CircList.length_toList, hsize]
    obtain ⟨t, hslot⟩ : ∃ t, (p.window hW).toList[p.id.toNat - pin.id.toNat]? = some t :=
      ⟨_, List.getElem?_eq_getElem hlt'⟩
    by_cases htu : t = seqUnseen
    · rw [hslot, htu]
    · exact absurd (hexact.seen_accepted _ hwin pin ht hle t hslot htu) hfresh

/-- With no reap pass, the UDP-mode window is exact: `packet_id_test` accepts a pin iff its id is
not 0 and it is at a later time, or at the current time and ahead of the highest id, or inside the
last `min(seq_backtrack, id)` ids and not accepted before. -/
theorem packet_id_test_window_exact {p : PacketIdRec} {acc : List PacketIdNet}
    (hreach : TestAddReach p acc) (hW : p.seqBacktrack ≠ 0) (pin : PacketIdNet) :
    packetIdTest p pin = true ↔ pin.id ≠ 0 ∧ (p.time < pin.time ∨ (pin.time = p.time ∧
      (p.id.toNat < pin.id.toNat ∨
        (p.id.toNat - pin.id.toNat < min p.seqBacktrack.toNat p.id.toNat ∧ pin ∉ acc)))) := by
  obtain ⟨hinv, hexact⟩ := testAddReach_inv hreach
  rw [packetIdTest_udp p pin hW (window_size_lt p hW hinv.seqBacktrack_le)]
  apply and_congr_right
  intro _
  apply or_congr_right
  apply and_congr_right
  intro ht
  by_cases hahead : p.id.toNat < pin.id.toNat
  · simp only [hahead, true_or]
  · rw [or_iff_right hahead, or_iff_right hahead]
    exact hexact.unseen_iff hinv hW ht (by omega)

/-- A 64-slot window after it accepted id 1 at time 0. -/
theorem packet_id_test_window_exact_after_first :
    ∃ p, TestAddReach p [⟨1, 0⟩] ∧ p.seqBacktrack ≠ 0 ∧ ∀ pin : PacketIdNet,
      (packetIdTest p pin = true ↔ pin.id ≠ 0 ∧ (p.time < pin.time ∨ (pin.time = p.time ∧
        (p.id.toNat < pin.id.toNat ∨
          (p.id.toNat - pin.id.toNat < min p.seqBacktrack.toNat p.id.toNat ∧
            pin ∉ [⟨1, 0⟩]))))) := by
  have h₀ : packetIdInit 64 0 = some ((packetIdInit 64 0).get (by decide)) :=
    (Option.some_get _).symm
  obtain ⟨seq, hs⟩ : ∃ seq, ((packetIdInit 64 0).get (by decide)).seqList = some seq := ⟨_, rfl⟩
  have htest : packetIdTest ((packetIdInit 64 0).get (by decide)) ⟨1, 0⟩ = true := by decide
  obtain ⟨-, -, -, p, -, hadd, -, hsb, -⟩ :=
    packetIdAdd_udp_of_test (by decide) htest (by decide : (2 : Int) ≤ 5) hs
  have hstep : packetIdTestAdd ((packetIdInit 64 0).get (by decide)) ⟨1, 0⟩ 5 = some (p, true) := by
    rw [packetIdTestAdd, if_pos htest, hadd]
    rfl
  have hreach := TestAddReach.step (TestAddReach.init h₀) (by decide) hstep
  have hW : p.seqBacktrack ≠ 0 := by
    rw [hsb]
    decide
  exact ⟨p, hreach, hW, packet_id_test_window_exact hreach hW⟩

end OpenVpn
