import OpenVpn.PacketIdSpec

/-! Anti-replay safety of `crypto_check_replay`. The invariant `ReplayInv` relates a receive record
to the pins it accepted: each of them is at a past time, or at the current time with an id at most
the highest one and a window slot (while it is still in the window) that is no longer
`SEQ_UNSEEN`. Every such pin fails `packet_id_test`; `packet_id_add` and the reaper keep the
invariant, so along a run of any length no pin is accepted twice. -/

namespace OpenVpn

/-- What a record still knows of a pin it accepted. -/
def Remembers (p : PacketIdRec) (pin : PacketIdNet) : Prop :=
  pin.time < p.time ∨ (pin.time = p.time ∧ pin.id.toNat ≤ p.id.toNat ∧
    ∀ seq ∈ p.seqList, seq.toList[p.id.toNat - pin.id.toNat]? ≠ some seqUnseen)

/-- The record has accepted something: its window is not empty, or in TCP mode its id is set. -/
def Started (p : PacketIdRec) : Prop :=
  match p.seqList with
  | some seq => seq.size ≠ 0
  | none => p.id ≠ 0

/-- The replay invariant of a receive record and the pins it has accepted. -/
structure ReplayInv (p : PacketIdRec) (acc : List PacketIdNet) : Prop where
  seqBacktrack_le : p.seqBacktrack.toNat ≤ 65536
  id_ne_zero : ∀ pin ∈ acc, pin.id ≠ 0
  remembers : ∀ pin ∈ acc, Remembers p pin
  started : acc ≠ [] → Started p

theorem window_size_lt (p : PacketIdRec) (h : p.seqBacktrack ≠ 0)
    (hsb : p.seqBacktrack.toNat ≤ 65536) : (p.window h).size < 2 ^ 32 := by
  have := (p.window h).size_le
  rw [p.cap_of_some (p.seqList_eq_window h)] at this
  omega

/-- A remembered pin is refused. -/
theorem packetIdTest_of_remembers {p : PacketIdRec} {pin : PacketIdNet}
    (hsb : p.seqBacktrack.toNat ≤ 65536) (hst : Started p) (hrem : Remembers p pin) :
    packetIdTest p pin = false := by
  by_cases hz : p.seqBacktrack = 0
  · have hs : p.seqList = none := by
      cases hs : p.seqList with
      | none => rfl
      | some seq => exact absurd hz (p.seqBacktrack_ne_zero_of_some hs)
    have hid : p.id ≠ 0 := by simpa [Started, hs] using hst
    rw [← Bool.not_eq_true, packetIdTest_tcp p pin hz]
    rintro ⟨hne, ⟨ht, h0 | hsucc⟩ | ⟨hlt, _⟩⟩
    · exact hid h0
    · rcases hrem with hlt | ⟨_, hle, _⟩
      · omega
      · have hp := p.id.toNat_lt
        rw [← UInt64.toNat_inj, UInt64.toNat_add, UInt64.toNat_one] at hsucc
        rw [Ne, ← UInt64.toNat_inj, UInt64.toNat_zero] at hne
        rw [Nat.mod_eq_of_lt (by omega)] at hsucc
        omega
    · rcases hrem with h | ⟨h, _⟩ <;> omega
  · have hwin := p.seqList_eq_window hz
    rw [← Bool.not_eq_true, packetIdTest_udp p pin hz (window_size_lt p hz hsb)]
    rintro ⟨_, hlt | ⟨ht, hnew | hslot⟩⟩
    · rcases hrem with h | ⟨h, _⟩ <;> omega
    · rcases hrem with h | ⟨_, hle, _⟩ <;> omega
    · rcases hrem with h | ⟨_, _, hseen⟩
      · omega
      · exact hseen _ hwin hslot

theorem remembers_packetIdReap {p : PacketIdRec} {pin : PacketIdNet} (now : Int)
    (hrem : Remembers p pin) : Remembers (packetIdReap p now) pin := by
  simp only [Remembers, time_packetIdReap, id_packetIdReap] at hrem ⊢
  rcases hrem with hlt | ⟨ht, hle, hseen⟩
  · exact Or.inl hlt
  · refine Or.inr ⟨ht, hle, fun seq' hseq' => ?_⟩
    cases hs : p.seqList with
    | none => simp [seqList_packetIdReap_of_none p now hs] at hseq'
    | some seq =>
        obtain ⟨seq'', hreap, hexp⟩ := seqList_packetIdReap_of_some p now hs
        rw [Option.mem_def, hreap, Option.some_inj] at hseq'
        subst hseq'
        exact hexp.2 _ (hseen seq hs)

theorem started_packetIdReap {p : PacketIdRec} (now : Int) (hst : Started p) :
    Started (packetIdReap p now) := by
  unfold Started at hst ⊢
  cases hs : p.seqList with
  | none =>
      rw [hs] at hst
      rw [seqList_packetIdReap_of_none p now hs, id_packetIdReap]
      exact hst
  | some seq =>
      rw [hs] at hst
      change seq.size ≠ 0 at hst
      obtain ⟨seq', hreap, hexp⟩ := seqList_packetIdReap_of_some p now hs
      rw [hreap]
      show seq'.size ≠ 0
      rw [hexp.1]
      exact hst

theorem replayInv_packetIdReapTest {p : PacketIdRec} {acc : List PacketIdNet} (now : Int)
    (hinv : ReplayInv p acc) : ReplayInv (packetIdReapTest p now) acc := by
  rcases packetIdReapTest_cases p now with h | h <;> rw [h]
  · exact ⟨by simpa using hinv.seqBacktrack_le, hinv.id_ne_zero,
      fun pin hpin => remembers_packetIdReap now (hinv.remembers pin hpin),
      fun hne => started_packetIdReap now (hinv.started hne)⟩
  · exact hinv

theorem getElem?_take_replicate_append (L : List Int) (a : Int) (k W d : Nat) :
    ((List.replicate k a ++ L).take W)[d + k]? = if d + k < W then L[d]? else none := by
  rw [List.getElem?_take]
  split_ifs
  · rw [List.getElem?_append_right (by simp), List.length_replicate, Nat.add_sub_cancel]
  · rfl

theorem replayInv_packetIdAdd_tcp {p : PacketIdRec} {acc : List PacketIdNet} {pin : PacketIdNet}
    (hinv : ReplayInv p acc) (htest : packetIdTest p pin = true) (hs : p.seqList = none) :
    ReplayInv { p with time := pin.time, id := pin.id } (pin :: acc) := by
  have hz : p.seqBacktrack = 0 := by
    have hf := p.seqList_fits
    rw [hs] at hf
    exact hf.1
  obtain ⟨hne, htcp⟩ := (packetIdTest_tcp p pin hz).mp htest
  have hnz : pin.id.toNat ≠ 0 := by rwa [Ne, ← UInt64.toNat_inj, UInt64.toNat_zero] at hne
  refine ⟨hinv.seqBacktrack_le, ?_, ?_, fun _ => by simpa [Started, hs] using hne⟩
  · intro q hq
    rcases List.mem_cons.mp hq with rfl | hq
    · exact hne
    · exact hinv.id_ne_zero q hq
  · intro q hq
    rcases List.mem_cons.mp hq with rfl | hq
    · exact Or.inr ⟨rfl, le_refl _, fun seq hseq => by simp [hs] at hseq⟩
    · have hrem := hinv.remembers q hq
      have hst : p.id ≠ 0 := by simpa [Started, hs] using hinv.started (List.ne_nil_of_mem hq)
      rcases htcp with ⟨ht, h0 | hsucc⟩ | ⟨hlt, _⟩
      · exact absurd h0 hst
      · have hp := p.id.toNat_lt
        rw [← UInt64.toNat_inj, UInt64.toNat_add, UInt64.toNat_one] at hsucc
        rw [Nat.mod_eq_of_lt (by omega)] at hsucc
        rcases hrem with hlt | ⟨hq, hle, _⟩
        · exact Or.inl (by simp only; omega)
        · exact Or.inr ⟨by simp only; omega, by simp only; omega,
            fun seq hseq => by simp [hs] at hseq⟩
      · rcases hrem with h | ⟨h, _⟩
        · exact Or.inl (by simp only; omega)
        · exact Or.inl (by simp only; omega)

/-- The pins accepted before a UDP-mode add are still remembered after it. -/
theorem remembers_packetIdAdd_udp {p p' : PacketIdRec} {pin q : PacketIdNet} {now : Int}
    {seq seq' : CircList Int} (hs : p.seqList = some seq) (hst : Started p)
    (htime : p.time < pin.time ∨ (pin.time = p.time ∧ (p.id.toNat < pin.id.toNat ∨
      seq.toList[p.id.toNat - pin.id.toNat]? = some seqUnseen)))
    (hseq' : p'.seqList = some seq')
    (htime' : p'.time = if startsNewList p seq pin then pin.time else p.time)
    (hid' : p'.id.toNat = max (startId p seq pin) pin.id.toNat)
    (hlist' : seq'.toList =
      (filledList p seq pin).set (max (startId p seq pin) pin.id.toNat - pin.id.toNat) now)
    (hrem : Remembers p q) : Remembers p' q := by
  have hW := p.cap_of_some hs
  have hpast : p.time ≤ p'.time := by rw [htime']; split_ifs <;> omega
  rcases hrem with hlt | ⟨hqt, hle, hseen⟩
  · exact Or.inl (by omega)
  have hseen := hseen seq hs
  unfold filledList startList at hlist'
  unfold startId at hid' hlist'
  by_cases hr : startsNewList p seq pin
  · simp only [if_pos hr] at htime' hid' hlist'
    rcases lt_or_eq_of_le hpast with hlt | heq
    · exact Or.inl (by omega)
    -- same time: the window restarted because the id jumped more than `seq_backtrack` ahead
    have hst' : seq.size ≠ 0 := by simpa [Started, hs] using hst
    rcases (startsNewList_iff p seq pin).mp hr with h0 | hlt | ⟨hsbm, hjump⟩
    · exact absurd h0 hst'
    · rw [htime'] at heq; omega
    · refine Or.inr ⟨by omega, by omega, fun s hs'' => ?_⟩
      rw [hseq', Option.mem_def, Option.some_inj] at hs''
      subst hs''
      rw [hlist', List.getElem?_eq_none]
      · simp
      · rw [List.length_set, List.length_take, List.length_append, List.length_replicate,
          List.length_nil]
        omega
  · simp only [if_neg hr] at htime' hid' hlist'
    rw [startsNewList_iff] at hr
    push Not at hr
    have hL : seq.toList.length ≤ seq.cap := seq.length_toList_le
    refine Or.inr ⟨by omega, by omega, fun s hs'' => ?_⟩
    rw [hseq', Option.mem_def, Option.some_inj] at hs''
    subst hs''
    rw [hlist']
    by_cases hahead : p.id.toNat < pin.id.toNat
    · -- the new id is ahead: the old slot moved up by the number of pushed ids
      rw [hid', show max p.id.toNat pin.id.toNat - q.id.toNat =
          (p.id.toNat - q.id.toNat) + (pin.id.toNat - p.id.toNat) by omega,
        List.getElem?_set_ne (by omega), getElem?_take_replicate_append]
      split_ifs
      · exact hseen
      · simp
    · -- the new id is behind: its slot was unseen, so it is not the old one
      rcases htime with hlt | ⟨_, hnew | hslot⟩
      · omega
      · omega
      · rw [hid', show max p.id.toNat pin.id.toNat = p.id.toNat by omega,
          show pin.id.toNat - p.id.toNat = 0 by omega, List.replicate_zero, List.nil_append,
          List.take_of_length_le hL, List.getElem?_set_ne]
        · exact hseen
        · intro heq
          rw [← heq] at hseen
          exact hseen hslot

/-- After a passed test, a UDP-mode `packet_id_add` does not abort: the test's verdict, the slot of
the new pin, and what the add does to the record. -/
theorem packetIdAdd_udp_of_test {p : PacketIdRec} {pin : PacketIdNet} {now : Int}
    {seq : CircList Int} (hsmall : p.seqBacktrack.toNat ≤ 65536)
    (htest : packetIdTest p pin = true) (hnow : 2 ≤ now) (hs : p.seqList = some seq) :
    pin.id ≠ 0 ∧ (p.time < pin.time ∨ (pin.time = p.time ∧ (p.id.toNat < pin.id.toNat ∨
        seq.toList[p.id.toNat - pin.id.toNat]? = some seqUnseen))) ∧
      max (startId p seq pin) pin.id.toNat - pin.id.toNat < (filledList p seq pin).length ∧
      ∃ p' seq', packetIdAdd p pin now = some p' ∧ p'.seqList = some seq' ∧
        p'.seqBacktrack = p.seqBacktrack ∧
        p'.time = (if startsNewList p seq pin then pin.time else p.time) ∧
        p'.id.toNat = max (startId p seq pin) pin.id.toNat ∧
        seq'.toList =
          (filledList p seq pin).set (max (startId p seq pin) pin.id.toNat - pin.id.toNat) now := by
  have hsb := p.seqBacktrack_ne_zero_of_some hs
  have hW := p.cap_of_some hs
  have hwin : p.window hsb = seq := by
    have := p.seqList_eq_window hsb
    rw [hs, Option.some_inj] at this
    exact this.symm
  obtain ⟨hne, htime⟩ := (packetIdTest_udp p pin hsb (window_size_lt p hsb hsmall)).mp htest
  rw [hwin] at htime
  have hm : pin.id.toNat ≠ 0 := by rwa [Ne, ← UInt64.toNat_inj, UInt64.toNat_zero] at hne
  have hcap := seq.cap_pos
  have hL := seq.length_toList_le
  have hslot :
      max (startId p seq pin) pin.id.toNat - pin.id.toNat < (filledList p seq pin).length := by
    unfold filledList startList startId
    by_cases hr : startsNewList p seq pin
    · simp only [if_pos hr, List.append_nil, List.length_take, List.length_replicate]
      omega
    · simp only [if_neg hr, List.length_take, List.length_append, List.length_replicate]
      rw [startsNewList_iff] at hr
      push Not at hr
      rcases htime with hlt | ⟨_, hahead | hunseen⟩
      · omega
      · omega
      · have := (List.getElem?_eq_some_iff.mp hunseen).1
        omega
  exact ⟨hne, htime, hslot,
    packetIdAdd_udp p pin now hs (by simp only [seqExpired]; omega) (by omega) hslot⟩

theorem replayInv_packetIdAdd_udp {p : PacketIdRec} {acc : List PacketIdNet} {pin : PacketIdNet}
    {now : Int} {seq : CircList Int} (hinv : ReplayInv p acc) (htest : packetIdTest p pin = true)
    (hnow : 2 ≤ now) (hs : p.seqList = some seq) :
    ∃ p', packetIdAdd p pin now = some p' ∧ ReplayInv p' (pin :: acc) := by
  obtain ⟨hne, htime, hslot, p', seq', hadd, hseq', hsb', htime', hid', hlist'⟩ :=
    packetIdAdd_udp_of_test hinv.seqBacktrack_le htest hnow hs
  have hst' : Started p' := by
    have hlen := congrArg List.length hlist'
    rw [List.length_set, CircList.length_toList] at hlen
    simp only [Started, hseq']
    omega
  refine ⟨p', hadd, ⟨by rw [hsb']; exact hinv.seqBacktrack_le, ?_, ?_, fun _ => hst'⟩⟩
  · intro q hq
    rcases List.mem_cons.mp hq with rfl | hq
    · exact hne
    · exact hinv.id_ne_zero q hq
  · intro q hq
    rcases List.mem_cons.mp hq with rfl | hq
    · refine Or.inr ⟨?_, by omega, fun s hs' => ?_⟩
      · rw [htime']
        split_ifs with hr
        · rfl
        · rw [startsNewList_iff] at hr
          push Not at hr
          rcases htime with h | ⟨h, _⟩ <;> omega
      · rw [hseq', Option.mem_def, Option.some_inj] at hs'
        subst hs'
        rw [hlist', hid', List.getElem?_set_self hslot]
        simp only [seqUnseen, ne_eq, Option.some.injEq]
        omega
    · exact remembers_packetIdAdd_udp hs (hinv.started (List.ne_nil_of_mem hq)) htime hseq'
        htime' hid' hlist' (hinv.remembers q hq)

/-- `packet_id_add` after a passed test keeps the invariant, with the new pin accepted. -/
theorem replayInv_packetIdAdd {p : PacketIdRec} {acc : List PacketIdNet} {pin : PacketIdNet}
    {now : Int} (hinv : ReplayInv p acc) (htest : packetIdTest p pin = true) (hnow : 2 ≤ now) :
    ∃ p', packetIdAdd p pin now = some p' ∧ ReplayInv p' (pin :: acc) := by
  cases hs : p.seqList with
  | none => exact ⟨_, packetIdAdd_tcp p pin now hs, replayInv_packetIdAdd_tcp hinv htest hs⟩
  | some seq => exact replayInv_packetIdAdd_udp hinv htest hnow hs

/-- One `crypto_check_replay`: it does not abort, keeps the invariant, and accepts only a pin it
has not accepted before. -/
theorem replayInv_cryptoCheckReplay {p : PacketIdRec} {acc : List PacketIdNet} (pin : PacketIdNet)
    {now : Int} (hinv : ReplayInv p acc) (hnow : 2 ≤ now) :
    ∃ p' ok, cryptoCheckReplay p pin now = some (p', ok) ∧
      ReplayInv p' (if ok then pin :: acc else acc) ∧ (ok = true → pin ∉ acc) := by
  have hinv₁ := replayInv_packetIdReapTest now hinv
  unfold cryptoCheckReplay
  by_cases htest : packetIdTest (packetIdReapTest p now) pin = true
  · obtain ⟨p', hadd, hinv'⟩ := replayInv_packetIdAdd hinv₁ htest hnow
    refine ⟨p', true, by rw [if_pos htest, hadd]; rfl, hinv', fun _ hmem => ?_⟩
    have hfalse := packetIdTest_of_remembers hinv₁.seqBacktrack_le
      (hinv₁.started (List.ne_nil_of_mem hmem)) (hinv₁.remembers pin hmem)
    rw [hfalse] at htest
    exact Bool.false_ne_true htest
  · exact ⟨_, false, by rw [if_neg htest], hinv₁, fun h => absurd h Bool.false_ne_true⟩

theorem replayInv_cryptoCheckReplayRun (run : List (Int × PacketIdNet))
    (hnow : ∀ a ∈ run, 2 ≤ a.1) :
    ∀ (p : PacketIdRec) (acc : List PacketIdNet), ReplayInv p acc → acc.Nodup →
      ∃ p' oks, cryptoCheckReplayRun p run = some (p', oks) ∧
        ReplayInv p' ((acceptedPins run oks).reverse ++ acc) ∧
        ((acceptedPins run oks).reverse ++ acc).Nodup := by
  induction run with
  | nil =>
      intro p acc hinv hnodup
      exact ⟨p, [], rfl, hinv, hnodup⟩
  | cons a rest ih =>
      intro p acc hinv hnodup
      obtain ⟨now, pin⟩ := a
      obtain ⟨p₁, ok, hstep, hinv₁, hfresh⟩ :=
        replayInv_cryptoCheckReplay pin hinv (hnow _ List.mem_cons_self)
      have hnodup₁ : (if ok then pin :: acc else acc).Nodup := by
        cases ok
        · exact hnodup
        · exact List.nodup_cons.mpr ⟨hfresh rfl, hnodup⟩
      obtain ⟨p', oks, hrun, hinv', hnodup'⟩ :=
        ih (fun b hb => hnow b (List.mem_cons_of_mem _ hb)) p₁ _ hinv₁ hnodup₁
      refine ⟨p', ok :: oks, by simp [cryptoCheckReplayRun, hstep, hrun], ?_, ?_⟩ <;>
        cases ok <;> simpa [acceptedPins] using by assumption

theorem replayInv_packetIdInit {seqBacktrack timeBacktrack : Int} {p₀ : PacketIdRec}
    (hinit : packetIdInit seqBacktrack timeBacktrack = some p₀) : ReplayInv p₀ [] := by
  refine ⟨?_, by simp, by simp, by simp⟩
  unfold packetIdInit at hinit
  split_ifs at hinit with hz h
  · cases hinit
    simp
  · cases hinit
    simp only [minSeqBacktrack, maxSeqBacktrack] at h
    have hlt : seqBacktrack.toNat < 2 ^ 64 := by omega
    rw [UInt64.toNat_ofNat_of_lt' hlt]
    omega

/-- Anti-replay safety: from any record `packet_id_init` creates, along any run of
`crypto_check_replay` calls at clock values of at least 2, no call aborts, no pin is accepted
twice, no accepted pin has id 0, and every accepted pin fails every later test. -/
theorem crypto_check_replay_never_reaccepts {seqBacktrack timeBacktrack : Int} {p₀ : PacketIdRec}
    (hinit : packetIdInit seqBacktrack timeBacktrack = some p₀) (run : List (Int × PacketIdNet))
    (hnow : ∀ a ∈ run, 2 ≤ a.1) :
    ∃ p oks, cryptoCheckReplayRun p₀ run = some (p, oks) ∧ (acceptedPins run oks).Nodup ∧
      (∀ pin ∈ acceptedPins run oks, pin.id ≠ 0) ∧
      ∀ pin ∈ acceptedPins run oks, ∀ now, packetIdTest (packetIdReapTest p now) pin = false := by
  obtain ⟨p, oks, hrun, hinv, hnodup⟩ :=
    replayInv_cryptoCheckReplayRun run hnow p₀ [] (replayInv_packetIdInit hinit) List.nodup_nil
  rw [List.append_nil] at hinv hnodup
  refine ⟨p, oks, hrun, List.nodup_reverse.mp hnodup,
    fun pin hpin => hinv.id_ne_zero pin (List.mem_reverse.mpr hpin), ?_⟩
  intro pin hpin now
  have hmem : pin ∈ (acceptedPins run oks).reverse := List.mem_reverse.mpr hpin
  have hinv' := replayInv_packetIdReapTest now hinv
  exact packetIdTest_of_remembers hinv'.seqBacktrack_le (hinv'.started (List.ne_nil_of_mem hmem))
    (hinv'.remembers pin hmem)

theorem crypto_check_replay_never_reaccepts_window64 :
    ∃ p₀, packetIdInit 64 15 = some p₀ ∧
      ∃ p oks, cryptoCheckReplayRun p₀ [(5, ⟨1, 0⟩), (5, ⟨1, 0⟩), (6, ⟨3, 0⟩)] = some (p, oks) ∧
        (acceptedPins [(5, ⟨1, 0⟩), (5, ⟨1, 0⟩), (6, ⟨3, 0⟩)] oks).Nodup ∧
        (∀ pin ∈ acceptedPins [(5, ⟨1, 0⟩), (5, ⟨1, 0⟩), (6, ⟨3, 0⟩)] oks, pin.id ≠ 0) ∧
        ∀ pin ∈ acceptedPins [(5, ⟨1, 0⟩), (5, ⟨1, 0⟩), (6, ⟨3, 0⟩)] oks, ∀ now,
          packetIdTest (packetIdReapTest p now) pin = false :=
  ⟨_, rfl, @crypto_check_replay_never_reaccepts 64 15 _ rfl _ (by decide)⟩

end OpenVpn
