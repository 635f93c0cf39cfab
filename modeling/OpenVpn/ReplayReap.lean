import OpenVpn.ReplayExact

/-! The reaper of `packet_id.c` and the time backtrack. `packet_id_reap` walks the window from the
newest slot and stops at the first `SEQ_EXPIRED` one; that is right only because the expired slots
of a window are a suffix of it (newest first). Pushes, resets, the cap, the reaper itself and
`packet_id_add` after a passed test all keep that shape, and a slot once stamped with the time its
packet arrived keeps the stamp until it is expired. So after a reap at time `T`, every id at or
below one that arrived before `T - time_backtrack` is refused. -/

namespace OpenVpn

/-- The `SEQ_EXPIRED` slots of a newest-first window are a suffix: every slot older than an expired
one is expired. -/
def ExpiredSuffix (l : List Int) : Prop :=
  l.Pairwise fun a b => a = seqExpired → b = seqExpired

/-- The loop of `packet_id_reap` on the newest-first list of the live slots. -/
def reapList (timeBacktrack now : Int) : Bool → List Int → List Int
  | _, [] => []
  | expire, t :: ts =>
      if t = seqExpired then t :: ts
      else
        let expire := expire || (decide (t ≠ seqUnseen) && decide (t + timeBacktrack < now))
        (if expire then seqExpired else t) :: reapList timeBacktrack now expire ts

section ReapList

variable (timeBacktrack now : Int)

@[simp] theorem length_reapList (expire : Bool) (l : List Int) :
    (reapList timeBacktrack now expire l).length = l.length := by
  induction l generalizing expire with
  | nil => rfl
  | cons t ts ih =>
      unfold reapList
      split_ifs
      · rfl
      · rw [List.length_cons, List.length_cons, ih]

/-- The reap loop over the items from `i` on is `reapList` on the list from `i` on. -/
theorem toList_packetIdReapLoop (n : Nat) :
    ∀ (seq : CircList Int) (expire : Bool) (i : Nat), i + n = seq.size →
      (packetIdReapLoop timeBacktrack now seq expire i n).toList =
        seq.toList.take i ++ reapList timeBacktrack now expire (seq.toList.drop i) := by
  induction n with
  | zero =>
      intro seq expire i hi
      rw [packetIdReapLoop, List.drop_of_length_le (by simp; omega), List.take_of_length_le
        (by simp; omega), reapList, List.append_nil]
  | succ n ih =>
      intro seq expire i hi
      have hlt : i < seq.toList.length := by rw [CircList.length_toList]; omega
      have hdrop : seq.toList.drop i = seq.item i :: seq.toList.drop (i + 1) := by
        rw [List.drop_eq_getElem_cons hlt, CircList.getElem_toList]
      rw [hdrop, packetIdReapLoop, reapList]
      dsimp only
      by_cases hexp : seq.item i = seqExpired
      · rw [if_pos hexp, if_pos hexp, ← hdrop, List.take_append_drop]
      rw [if_neg hexp, if_neg hexp]
      generalize (expire || (decide (seq.item i ≠ seqUnseen) &&
        decide (seq.item i + timeBacktrack < now))) = e
      cases e with
      | false =>
          simp only [Bool.false_eq_true, ↓reduceIte]
          rw [ih seq false (i + 1) (by omega), List.take_succ_eq_append_getElem hlt,
            CircList.getElem_toList, List.append_assoc, List.singleton_append]
      | true =>
          simp only [↓reduceIte]
          have hset := CircList.toList_setItem seq seqExpired (by omega : i < seq.size)
          rw [ih _ true (i + 1) (by simp; omega), hset,
            List.take_succ_eq_append_getElem (by simpa using hlt), List.getElem_set_self,
            List.take_set_of_le (le_refl i), List.drop_set_of_lt (Nat.lt_succ_self i),
            List.append_assoc, List.singleton_append]

/-- A reap pass leaves each slot as it was or marks it `SEQ_EXPIRED`. -/
theorem getElem?_reapList (expire : Bool) (l : List Int) (d : Nat) :
    (reapList timeBacktrack now expire l)[d]? = l[d]? ∨
      (reapList timeBacktrack now expire l)[d]? = some seqExpired := by
  induction l generalizing expire d with
  | nil => exact Or.inl rfl
  | cons t ts ih =>
      unfold reapList
      by_cases hexp : t = seqExpired
      · rw [if_pos hexp]
        exact Or.inl rfl
      rw [if_neg hexp]
      dsimp only
      cases d with
      | zero =>
          rw [List.getElem?_cons_zero, List.getElem?_cons_zero]
          split
          · exact Or.inr rfl
          · exact Or.inl rfl
      | succ d =>
          rw [List.getElem?_cons_succ, List.getElem?_cons_succ]
          exact ih _ d

/-- Once marking has started, the pass marks every slot up to the expired suffix, which it keeps. -/
theorem reapList_true_all {l : List Int} (hl : ExpiredSuffix l) :
    ∀ x ∈ reapList timeBacktrack now true l, x = seqExpired := by
  induction l with
  | nil => simp [reapList]
  | cons t ts ih =>
      rw [ExpiredSuffix, List.pairwise_cons] at hl
      unfold reapList
      split_ifs with hexp
      · intro x hx
        rcases List.mem_cons.mp hx with rfl | hx
        · exact hexp
        · exact hl.1 x hx hexp
      · intro x hx
        rcases List.mem_cons.mp hx with rfl | hx
        · rfl
        · exact ih hl.2 x hx

theorem expiredSuffix_reapList (expire : Bool) {l : List Int} (hl : ExpiredSuffix l) :
    ExpiredSuffix (reapList timeBacktrack now expire l) := by
  induction l generalizing expire with
  | nil => exact List.Pairwise.nil
  | cons t ts ih =>
      have hts : ExpiredSuffix ts := (List.pairwise_cons.mp hl).2
      unfold reapList
      split_ifs with hexp
      · exact hl
      · dsimp only
        generalize (expire || (decide (t ≠ seqUnseen) && decide (t + timeBacktrack < now))) = e
        refine List.pairwise_cons.mpr ⟨fun x hx hhead => ?_, ih e hts⟩
        cases e with
        | false => exact absurd hhead hexp
        | true => exact reapList_true_all timeBacktrack now hts x hx

/-- From a slot that is expired, or stamped before `now - time_backtrack`, on, a reap pass leaves
every slot expired. -/
theorem reapList_expired_from (expire : Bool) {l : List Int} (hl : ExpiredSuffix l) {d : Nat}
    {t : Int} (hd : l[d]? = some t)
    (ht : t = seqExpired ∨ (t ≠ seqUnseen ∧ t + timeBacktrack < now)) :
    ∀ j, d ≤ j → ∀ x ∈ (reapList timeBacktrack now expire l)[j]?, x = seqExpired := by
  induction l generalizing expire d with
  | nil => simp at hd
  | cons y ys ih =>
      have hys : ExpiredSuffix ys := (List.pairwise_cons.mp hl).2
      intro j hj x hx
      unfold reapList at hx
      split_ifs at hx with hexp
      · -- the pass stops at the first expired slot: from there on the window is expired
        have hall : ∀ z ∈ y :: ys, z = seqExpired := by
          intro z hz
          rcases List.mem_cons.mp hz with rfl | hz
          · exact hexp
          · exact (List.pairwise_cons.mp hl).1 z hz hexp
        exact hall x (List.mem_of_getElem? hx)
      · dsimp only at hx
        cases d with
        | zero =>
            -- the slot itself starts the marking
            rw [List.getElem?_cons_zero, Option.some_inj] at hd
            subst hd
            have hmark : (expire || (decide (y ≠ seqUnseen) &&
                decide (y + timeBacktrack < now))) = true := by
              rcases ht with h | ⟨hu, hlt⟩
              · exact absurd h hexp
              · simp [hu, hlt]
            rw [hmark, if_pos rfl] at hx
            cases j with
            | zero => exact (Option.some_inj.mp hx).symm
            | succ j =>
                exact reapList_true_all timeBacktrack now hys x (List.mem_of_getElem? hx)
        | succ d =>
            cases j with
            | zero => omega
            | succ j => exact ih _ hys hd j (by omega) x hx

end ReapList

theorem seqUnseen_ne_seqExpired : seqUnseen ≠ seqExpired := by decide

/-- A slot among the pushed `SEQ_UNSEEN` ones, inside the cap. -/
theorem getElem?_take_replicate_append_of_lt {α : Type} (a : α) (L : List α) {k W d : Nat}
    (hk : d < k) (hW : d < W) : ((List.replicate k a ++ L).take W)[d]? = some a := by
  rw [List.getElem?_take, if_pos hW,
    List.getElem?_append_left (by rw [List.length_replicate]; exact hk), List.getElem?_replicate,
    if_pos hk]

/-- Writing a slot that is not expired with a value that is not expired keeps the suffix. -/
theorem expiredSuffix_set {l : List Int} (hl : ExpiredSuffix l) {i : Nat}
    (hi : l[i]? ≠ some seqExpired) {x : Int} (hx : x ≠ seqExpired) : ExpiredSuffix (l.set i x) := by
  rw [ExpiredSuffix, List.pairwise_iff_getElem] at hl ⊢
  intro j k hj hk hjk hexp
  rw [List.length_set] at hj hk
  rw [List.getElem_set] at hexp ⊢
  split_ifs at hexp with hij
  · exact absurd hexp hx
  · have hk' := hl j k hj hk hjk hexp
    split_ifs with hik
    · subst hik
      exact absurd (by rw [List.getElem?_eq_getElem hk, hk']) hi
    · exact hk'

/-- The window `packet_id_add` fills keeps the suffix: the pushed slots are `SEQ_UNSEEN`, and the
cap only drops the oldest slots. -/
theorem expiredSuffix_filledList (p : PacketIdRec) {seq : CircList Int} (pin : PacketIdNet)
    (hl : ExpiredSuffix seq.toList) : ExpiredSuffix (filledList p seq pin) := by
  unfold filledList
  apply List.Pairwise.sublist (List.take_sublist _ _)
  rw [List.pairwise_append]
  refine ⟨List.pairwise_replicate.mpr (Or.inr fun h => absurd h seqUnseen_ne_seqExpired), ?_,
    fun a ha _ _ h => ?_⟩
  · unfold startList
    split_ifs
    · exact List.Pairwise.nil
    · exact hl
  · rw [(List.mem_replicate.mp ha).2] at h
    exact absurd h seqUnseen_ne_seqExpired

/-- The slot `packet_id_add` stamps after a passed test is `SEQ_UNSEEN` in the filled window. -/
theorem getElem?_filledList_slot (p : PacketIdRec) {seq : CircList Int} (pin : PacketIdNet)
    (hs : p.seqList = some seq) (hne : pin.id ≠ 0)
    (htime : p.time < pin.time ∨ (pin.time = p.time ∧ (p.id.toNat < pin.id.toNat ∨
      seq.toList[p.id.toNat - pin.id.toNat]? = some seqUnseen))) :
    (filledList p seq pin)[max (startId p seq pin) pin.id.toNat - pin.id.toNat]? =
      some seqUnseen := by
  have hW := p.cap_of_some hs
  have hcap := seq.cap_pos
  have hm : pin.id.toNat ≠ 0 := by rwa [Ne, ← UInt64.toNat_inj, UInt64.toNat_zero] at hne
  unfold filledList startList startId
  by_cases hr : startsNewList p seq pin
  · -- a restarted window: the new id's slot is the newest pushed one
    simp only [if_pos hr]
    exact getElem?_take_replicate_append_of_lt _ _ (by omega) (by omega)
  simp only [if_neg hr]
  rw [startsNewList_iff] at hr
  push Not at hr
  by_cases hahead : p.id.toNat < pin.id.toNat
  · exact getElem?_take_replicate_append_of_lt _ _ (by omega) (by omega)
  · rcases htime with h | ⟨_, h | hunseen⟩
    · omega
    · omega
    · rw [show pin.id.toNat - p.id.toNat = 0 by omega, List.replicate_zero, List.nil_append,
        List.take_of_length_le seq.length_toList_le,
        show max p.id.toNat pin.id.toNat = p.id.toNat by omega]
      exact hunseen

@[simp] theorem timeBacktrack_packetIdReap (p : PacketIdRec) (now : Int) :
    (packetIdReap p now).timeBacktrack = p.timeBacktrack := by
  unfold packetIdReap; split_ifs <;> rfl

/-- `packet_id_reap` on the list of slots: `reapList` from the newest slot, or nothing when
`time_backtrack` is 0. -/
theorem seqList_packetIdReap_toList (p : PacketIdRec) (now : Int) {seq : CircList Int}
    (hs : p.seqList = some seq) :
    ∃ seq', (packetIdReap p now).seqList = some seq' ∧
      seq'.toList = if p.timeBacktrack ≠ 0 then reapList p.timeBacktrack now false seq.toList
        else seq.toList := by
  unfold packetIdReap
  split_ifs with h
  · have hw := p.seqList_eq_window (p.seqBacktrack_ne_zero_of_timeBacktrack h)
    rw [hs, Option.some_inj] at hw
    subst hw
    refine ⟨_, rfl, ?_⟩
    rw [toList_packetIdReapLoop _ _ _ _ _ _ (by omega), List.take_zero, List.drop_zero,
      List.nil_append]
  · exact ⟨seq, hs, rfl⟩

/-- What a record still knows of a pin it accepted at clock value `a.2`: the pin is not in the
future, and at the current time its slot is live or pushed out, and holds the stamp `a.2` or
`SEQ_EXPIRED`. -/
def Stamped (p : PacketIdRec) (seq : CircList Int) (a : PacketIdNet × Int) : Prop :=
  a.1.time ≤ p.time ∧ (a.1.time = p.time → a.1.id.toNat ≤ p.id.toNat ∧
    (p.id.toNat - a.1.id.toNat < seq.toList.length ∨
      p.seqBacktrack.toNat ≤ p.id.toNat - a.1.id.toNat) ∧
    ∀ x ∈ seq.toList[p.id.toNat - a.1.id.toNat]?, x = a.2 ∨ x = seqExpired)

/-- The reaper invariant of a receive record and the pins it accepted with their clock values. -/
structure ReapInv (p : PacketIdRec) (acc : List (PacketIdNet × Int)) : Prop where
  seqBacktrack_le : p.seqBacktrack.toNat ≤ 65536
  suffix : ∀ seq ∈ p.seqList, ExpiredSuffix seq.toList
  stamp_ge : ∀ a ∈ acc, 2 ≤ a.2
  stamped : ∀ seq ∈ p.seqList, ∀ a ∈ acc, Stamped p seq a

theorem reapInv_packetIdInit {seqBacktrack timeBacktrack : Int} {p₀ : PacketIdRec}
    (hinit : packetIdInit seqBacktrack timeBacktrack = some p₀) : ReapInv p₀ [] := by
  refine ⟨(replayInv_packetIdInit hinit).seqBacktrack_le, fun seq hseq => ?_, by simp, by simp⟩
  unfold packetIdInit at hinit
  split_ifs at hinit with hz h
  · cases hinit
    exact absurd hseq (Option.not_mem_none seq)
  · cases hinit
    rw [Option.mem_def, Option.some_inj] at hseq
    subst hseq
    rw [CircList.toList_alloc]
    exact List.Pairwise.nil

/-- A reap pass keeps the invariant: it keeps the suffix, and it only marks slots expired. -/
theorem reapInv_packetIdReap {p : PacketIdRec} {acc : List (PacketIdNet × Int)} (now : Int)
    (hinv : ReapInv p acc) : ReapInv (packetIdReap p now) acc := by
  have hwin : ∀ seq' ∈ (packetIdReap p now).seqList, ∃ seq ∈ p.seqList,
      ExpiredSuffix seq'.toList ∧ seq'.toList.length = seq.toList.length ∧
        ∀ d : Nat, ∀ x ∈ seq'.toList[d]?, x ∈ seq.toList[d]? ∨ x = seqExpired := by
    intro seq' hseq'
    cases hs : p.seqList with
    | none =>
        rw [seqList_packetIdReap_of_none p now hs] at hseq'
        exact absurd hseq' (Option.not_mem_none _)
    | some seq =>
        obtain ⟨s, hreap, hlist⟩ := seqList_packetIdReap_toList p now hs
        rw [hreap, Option.mem_def, Option.some_inj] at hseq'
        subst hseq'
        have hsuf := hinv.suffix seq hs
        refine ⟨seq, rfl, ?_⟩
        rw [hlist]
        split_ifs
        · refine ⟨expiredSuffix_reapList _ _ false hsuf, length_reapList .., fun d x hx => ?_⟩
          rcases getElem?_reapList p.timeBacktrack now false seq.toList d with h | h
          · rw [h] at hx
            exact Or.inl hx
          · rw [h, Option.mem_def, Option.some_inj] at hx
            exact Or.inr hx.symm
        · exact ⟨hsuf, rfl, fun d x hx => Or.inl hx⟩
  refine ⟨by simpa using hinv.seqBacktrack_le, fun seq' hseq' => ?_, hinv.stamp_ge,
    fun seq' hseq' a ha => ?_⟩
  · obtain ⟨seq, -, hsuf, -⟩ := hwin seq' hseq'
    exact hsuf
  · obtain ⟨seq, hs, -, hlen, hslots⟩ := hwin seq' hseq'
    obtain ⟨hat, hcur⟩ := hinv.stamped seq hs a ha
    simp only [Stamped, time_packetIdReap, id_packetIdReap, seqBacktrack_packetIdReap, hlen]
    refine ⟨hat, fun heq => ?_⟩
    obtain ⟨hle, hrange, hval⟩ := hcur heq
    refine ⟨hle, hrange, fun x hx => ?_⟩
    rcases hslots _ x hx with hx | hx
    · exact hval x hx
    · exact Or.inr hx

theorem reapInv_packetIdReapTest {p : PacketIdRec} {acc : List (PacketIdNet × Int)} (now : Int)
    (hinv : ReapInv p acc) : ReapInv (packetIdReapTest p now) acc := by
  rcases packetIdReapTest_cases p now with h | h <;> rw [h]
  · exact reapInv_packetIdReap now hinv
  · exact hinv

section Add

variable {p p' : PacketIdRec} {pin : PacketIdNet} {now : Int} {seq seq' : CircList Int}
  (hs : p.seqList = some seq)
  (htime : p.time < pin.time ∨ (pin.time = p.time ∧ (p.id.toNat < pin.id.toNat ∨
    seq.toList[p.id.toNat - pin.id.toNat]? = some seqUnseen)))
  (hsb' : p'.seqBacktrack = p.seqBacktrack)
  (htime' : p'.time = if startsNewList p seq pin then pin.time else p.time)
  (hid' : p'.id.toNat = max (startId p seq pin) pin.id.toNat)
  (hlist' : seq'.toList =
    (filledList p seq pin).set (max (startId p seq pin) pin.id.toNat - pin.id.toNat) now)

include htime htime' in
/-- After a passed test the record's time is the pin's. -/
theorem time_packetIdAdd_eq : pin.time = p'.time := by
  rw [htime']
  split_ifs with hr
  · rfl
  · rw [startsNewList_iff] at hr
    push Not at hr
    rcases htime with h | ⟨h, _⟩ <;> omega

include htime htime' hid' hlist' in
/-- The new pin is stamped with the clock value of its arrival. -/
theorem stamped_packetIdAdd_new
    (hslot : max (startId p seq pin) pin.id.toNat - pin.id.toNat < (filledList p seq pin).length) :
    Stamped p' seq' (pin, now) := by
  have hpt := time_packetIdAdd_eq htime htime'
  refine ⟨le_of_eq hpt, fun _ => ⟨by simp only; omega, Or.inl ?_, fun x hx => Or.inl ?_⟩⟩
  · rw [hlist', List.length_set, hid']
    exact hslot
  · rw [hlist', hid', Option.mem_def, List.getElem?_set_self hslot, Option.some_inj] at hx
    exact hx.symm

include hs htime hsb' htime' hid' hlist' in
/-- A pin accepted before stays stamped: its slot moves with the pushed ids, or leaves the window,
and the slot stamped now is not its own. -/
theorem stamped_packetIdAdd_old {a : PacketIdNet × Int} (hge : 2 ≤ a.2)
    (hunseen : (filledList p seq pin)[max (startId p seq pin) pin.id.toNat - pin.id.toNat]? =
      some seqUnseen)
    (ha : Stamped p seq a) : Stamped p' seq' a := by
  have hW := p.cap_of_some hs
  have hcap := seq.cap_pos
  have hL := seq.length_toList_le
  have hpt : p.time ≤ pin.time := by rcases htime with h | ⟨h, _⟩ <;> omega
  have hpast : p.time ≤ p'.time := by rw [htime']; split_ifs <;> omega
  obtain ⟨hat, hcur⟩ := ha
  refine ⟨by omega, fun heq => ?_⟩
  obtain ⟨hle, hrange, hval⟩ := hcur (by omega)
  have hlen' : seq'.toList.length = (filledList p seq pin).length := by
    rw [hlist', List.length_set]
  have hfill := length_filledList_le p seq pin
  rw [hsb', hlen', hid']
  by_cases hr : startsNewList p seq pin
  · -- a restarted window at the same time: the pin jumped past the old window
    have hahead : p.seqBacktrack.toNat ≤ pin.id.toNat - a.1.id.toNat := by
      rcases (startsNewList_iff p seq pin).mp hr with h0 | hlt | ⟨_, hjump⟩
      · have hnil : seq.toList = [] := (CircList.toList_eq_nil_iff seq).mpr h0
        rw [hnil] at hrange
        rcases htime with h | ⟨_, h | h⟩
        · rw [htime', if_pos hr] at heq
          omega
        · simp only [List.length_nil] at hrange
          omega
        · rw [hnil] at h
          cases h
      · rw [htime', if_pos hr] at heq
        omega
      · omega
    have hmax : max (startId p seq pin) pin.id.toNat = pin.id.toNat := by
      unfold startId
      rw [if_pos hr]
      omega
    rw [hmax]
    refine ⟨by omega, Or.inr hahead, fun x hx => ?_⟩
    rw [hlist', hmax, List.getElem?_eq_none (by rw [List.length_set]; omega)] at hx
    cases hx
  · have hmax : max (startId p seq pin) pin.id.toNat = max p.id.toNat pin.id.toNat := by
      unfold startId
      rw [if_neg hr]
    have hflen : (filledList p seq pin).length =
        min (pin.id.toNat - p.id.toNat + seq.toList.length) seq.cap := by
      unfold filledList startList startId
      simp only [if_neg hr, List.length_take, List.length_append, List.length_replicate]
      omega
    rw [hmax, hflen]
    rw [hmax] at hlist' hunseen
    by_cases hahead : p.id.toNat < pin.id.toNat
    · -- the pushed ids move the old slot up; the slot stamped now is the newest one
      refine ⟨by omega, by omega, fun x hx => ?_⟩
      rw [hlist', show max p.id.toNat pin.id.toNat - a.1.id.toNat =
          (p.id.toNat - a.1.id.toNat) + (pin.id.toNat - p.id.toNat) by omega,
        List.getElem?_set_ne (by omega)] at hx
      unfold filledList startList startId at hx
      rw [if_neg hr, if_neg hr, getElem?_take_replicate_append] at hx
      split_ifs at hx
      · exact hval x hx
      · cases hx
    · -- nothing was pushed; the slot stamped now was unseen, so it is not the old pin's
      have hfl : filledList p seq pin = seq.toList := by
        unfold filledList startList startId
        rw [if_neg hr, if_neg hr, show pin.id.toNat - p.id.toNat = 0 by omega,
          List.replicate_zero, List.nil_append, List.take_of_length_le hL]
      rw [show max p.id.toNat pin.id.toNat = p.id.toNat by omega] at hlist' hunseen ⊢
      rw [hfl] at hlist' hunseen
      refine ⟨hle, by omega, fun x hx => ?_⟩
      rw [hlist'] at hx
      by_cases hsame : p.id.toNat - pin.id.toNat = p.id.toNat - a.1.id.toNat
      · rw [hsame] at hunseen
        rcases hval seqUnseen hunseen with h | h
        · simp only [seqUnseen] at h
          omega
        · exact absurd h seqUnseen_ne_seqExpired
      · rw [List.getElem?_set_ne hsame] at hx
        exact hval x hx

end Add

/-- `packet_id_add` after a passed test keeps the reaper invariant, with the new pin stamped. -/
theorem reapInv_packetIdAdd {p : PacketIdRec} {acc : List (PacketIdNet × Int)}
    {pin : PacketIdNet} {now : Int} (hinv : ReapInv p acc) (htest : packetIdTest p pin = true)
    (hnow : 2 ≤ now) : ∃ p', packetIdAdd p pin now = some p' ∧ ReapInv p' ((pin, now) :: acc) := by
  have hge : ∀ a ∈ (pin, now) :: acc, 2 ≤ a.2 := by
    intro a ha
    rcases List.mem_cons.mp ha with rfl | ha
    · exact hnow
    · exact hinv.stamp_ge a ha
  cases hs : p.seqList with
  | none =>
      -- TCP mode keeps no window
      exact ⟨_, packetIdAdd_tcp p pin now hs, ⟨hinv.seqBacktrack_le,
        fun seq h => absurd h (by simp [hs]), hge, fun seq h => absurd h (by simp [hs])⟩⟩
  | some seq =>
      obtain ⟨hne, htime, hslot, p', seq', hadd, hseq', hsb', htime', hid', hlist'⟩ :=
        packetIdAdd_udp_of_test hinv.seqBacktrack_le htest hnow hs
      have hunseen := getElem?_filledList_slot p pin hs hne htime
      refine ⟨p', hadd, ⟨by rw [hsb']; exact hinv.seqBacktrack_le, fun s hs' => ?_, hge,
        fun s hs' a ha => ?_⟩⟩
      · rw [hseq', Option.mem_def, Option.some_inj] at hs'
        subst hs'
        rw [hlist']
        exact expiredSuffix_set (expiredSuffix_filledList p pin (hinv.suffix seq hs))
          (by rw [hunseen]; exact fun h => seqUnseen_ne_seqExpired (Option.some_inj.mp h))
          (by simp only [seqExpired]; omega)
      · rw [hseq', Option.mem_def, Option.some_inj] at hs'
        subst hs'
        rcases List.mem_cons.mp ha with rfl | ha
        · exact stamped_packetIdAdd_new htime htime' hid' hlist' hslot
        · exact stamped_packetIdAdd_old hs htime hsb' htime' hid' hlist' (hinv.stamp_ge a ha)
            hunseen (hinv.stamped seq hs a ha)

/-- One `crypto_check_replay` keeps the reaper invariant, with an accepted pin stamped. -/
theorem reapInv_cryptoCheckReplay {p p' : PacketIdRec} {acc : List (PacketIdNet × Int)}
    {pin : PacketIdNet} {now : Int} {ok : Bool} (hinv : ReapInv p acc) (hnow : 2 ≤ now)
    (hstep : cryptoCheckReplay p pin now = some (p', ok)) :
    ReapInv p' (if ok then (pin, now) :: acc else acc) := by
  have hinv₁ := reapInv_packetIdReapTest now hinv
  unfold cryptoCheckReplay at hstep
  dsimp only at hstep
  by_cases htest : packetIdTest (packetIdReapTest p now) pin = true
  · rw [if_pos htest] at hstep
    obtain ⟨p₁, hadd, hinv'⟩ := reapInv_packetIdAdd hinv₁ htest hnow
    rw [hadd, Option.map_some, Option.some_inj, Prod.mk.injEq] at hstep
    obtain ⟨rfl, rfl⟩ := hstep
    exact hinv'
  · rw [if_neg htest, Option.some_inj, Prod.mk.injEq] at hstep
    obtain ⟨rfl, rfl⟩ := hstep
    exact hinv₁

/-- The records reachable from `packet_id_init` by `crypto_check_replay` calls at clock values of
at least 2, with each accepted pin and the clock value at its arrival. -/
inductive ReplayReach : PacketIdRec → List (PacketIdNet × Int) → Prop
  | init {seqBacktrack timeBacktrack : Int} {p : PacketIdRec} :
      packetIdInit seqBacktrack timeBacktrack = some p → ReplayReach p []
  | step {p p' : PacketIdRec} {acc : List (PacketIdNet × Int)} {pin : PacketIdNet} {now : Int}
      {ok : Bool} : ReplayReach p acc → 2 ≤ now → cryptoCheckReplay p pin now = some (p', ok) →
      ReplayReach p' (if ok then (pin, now) :: acc else acc)

theorem replayReach_inv {p : PacketIdRec} {acc : List (PacketIdNet × Int)}
    (h : ReplayReach p acc) : ReapInv p acc := by
  induction h with
  | init hinit => exact reapInv_packetIdInit hinit
  | step _ hnow hstep ih => exact reapInv_cryptoCheckReplay ih hnow hstep

/-- An expired suffix splits the window into slots that are not expired and a run of expired
ones. -/
theorem ExpiredSuffix.split {l : List Int} (hl : ExpiredSuffix l) :
    ∃ pre suf, l = pre ++ suf ∧ seqExpired ∉ pre ∧ ∀ x ∈ suf, x = seqExpired := by
  induction l with
  | nil => exact ⟨[], [], rfl, List.not_mem_nil, fun x hx => absurd hx List.not_mem_nil⟩
  | cons y ys ih =>
      obtain ⟨hhead, hys⟩ := List.pairwise_cons.mp hl
      by_cases hy : y = seqExpired
      · refine ⟨[], y :: ys, rfl, List.not_mem_nil, fun x hx => ?_⟩
        rcases List.mem_cons.mp hx with rfl | hx
        · exact hy
        · exact hhead x hx hy
      · obtain ⟨pre, suf, heq, hpre, hsuf⟩ := ih hys
        refine ⟨y :: pre, suf, by rw [heq, List.cons_append], fun h => ?_, hsuf⟩
        rcases List.mem_cons.mp h with h | h
        · exact hy h.symm
        · exact hpre h

/-- After a reap at time `T`, a pin at the current time is refused when its id is at most that of
a pin accepted at the current time before `T - time_backtrack`. -/
theorem ReapInv.reap_refuses {p : PacketIdRec} {acc : List (PacketIdNet × Int)}
    (hinv : ReapInv p acc) (hW : p.seqBacktrack ≠ 0) (hTB : 0 < p.timeBacktrack) {T : Int}
    {a : PacketIdNet × Int} (ha : a ∈ acc) (hat : a.1.time = p.time)
    (hstale : a.2 + p.timeBacktrack < T) {pin : PacketIdNet} (hpt : pin.time = p.time)
    (hpid : pin.id.toNat ≤ a.1.id.toNat) : packetIdTest (packetIdReap p T) pin = false := by
  have hwin := p.seqList_eq_window hW
  obtain ⟨s, hreap, hlist⟩ := seqList_packetIdReap_toList p T hwin
  rw [if_pos hTB.ne'] at hlist
  have hW' : (packetIdReap p T).seqBacktrack ≠ 0 := by
    rw [seqBacktrack_packetIdReap]
    exact hW
  have hwin' : (packetIdReap p T).window hW' = s := by
    have := (packetIdReap p T).seqList_eq_window hW'
    rw [hreap, Option.some_inj] at this
    exact this.symm
  have hsb' : (packetIdReap p T).seqBacktrack.toNat ≤ 65536 := by
    simpa using hinv.seqBacktrack_le
  rw [← Bool.not_eq_true, packetIdTest_udp _ pin hW' (window_size_lt _ hW' hsb'), hwin', hlist]
  simp only [time_packetIdReap, id_packetIdReap]
  obtain ⟨-, hcur⟩ := hinv.stamped _ hwin a ha
  obtain ⟨hle, hrange, hval⟩ := hcur hat
  rintro ⟨-, hlt | ⟨-, hahead | hslot⟩⟩
  · omega
  · omega
  rcases hrange with hin | hout
  · -- the stale slot is live: from it on, the reap leaves every slot expired
    obtain ⟨x, hx⟩ : ∃ x, (p.window hW).toList[p.id.toNat - a.1.id.toNat]? = some x :=
      ⟨_, List.getElem?_eq_getElem hin⟩
    have hxs : x = seqExpired ∨ (x ≠ seqUnseen ∧ x + p.timeBacktrack < T) := by
      rcases hval x hx with rfl | rfl
      · have := hinv.stamp_ge a ha
        exact Or.inr ⟨by simp only [seqUnseen]; omega, hstale⟩
      · exact Or.inl rfl
    exact seqUnseen_ne_seqExpired (reapList_expired_from p.timeBacktrack T false
      (hinv.suffix _ hwin) hx hxs _ (by omega) seqUnseen hslot)
  · -- the stale slot was pushed out, and so was the pin's
    have hlen : (reapList p.timeBacktrack T false (p.window hW).toList).length ≤
        p.seqBacktrack.toNat := by
      rw [length_reapList, ← p.cap_of_some hwin]
      exact (p.window hW).length_toList_le
    rw [List.getElem?_eq_none (by omega)] at hslot
    cases hslot

/-- The time-backtrack law of the reaper: in every reachable record with a window and
`time_backtrack > 0`, the `SEQ_EXPIRED` slots are a contiguous suffix (oldest ids), and after a
reap at time `T` every pin at the current time with an id at most that of a pin accepted at a clock
value `t` with `t + time_backtrack < T` is refused. -/
theorem packet_id_reap_expired_suffix {p : PacketIdRec} {acc : List (PacketIdNet × Int)}
    (hreach : ReplayReach p acc) (hW : p.seqBacktrack ≠ 0) (hTB : 0 < p.timeBacktrack) :
    (∃ pre suf, (p.window hW).toList = pre ++ suf ∧ seqExpired ∉ pre ∧
      ∀ x ∈ suf, x = seqExpired) ∧
    ∀ T, ∀ a ∈ acc, a.1.time = p.time → a.2 + p.timeBacktrack < T →
      ∀ pin : PacketIdNet, pin.time = p.time → pin.id.toNat ≤ a.1.id.toNat →
        packetIdTest (packetIdReap p T) pin = false := by
  have hinv := replayReach_inv hreach
  refine ⟨(hinv.suffix _ (p.seqList_eq_window hW)).split, ?_⟩
  intro T a ha hat hstale pin hpt hpid
  exact hinv.reap_refuses hW hTB ha hat hstale hpt hpid

/-- `packet_id_add` keeps the reap clock and the time backtrack. -/
theorem packetIdAdd_keeps {p p' : PacketIdRec} {pin : PacketIdNet} {now : Int}
    (h : packetIdAdd p pin now = some p') :
    p'.lastReap = p.lastReap ∧ p'.timeBacktrack = p.timeBacktrack := by
  unfold packetIdAdd at h
  split at h
  · dsimp only at h
    split_ifs at h <;> (rw [Option.some_inj] at h; rw [← h]; exact ⟨rfl, rfl⟩)
  · rw [Option.some_inj] at h
    rw [← h]
    exact ⟨rfl, rfl⟩

theorem packetIdReapTest_of_lt {p : PacketIdRec} {now : Int}
    (h : now < p.lastReap + seqReapInterval) : packetIdReapTest p now = p := by
  unfold packetIdReapTest
  rw [if_neg (by omega)]

/-- A window of 64 slots with a time backtrack of 15 seconds, after it accepted id 1 at time 0 on
clock value 5. -/
theorem packet_id_reap_expired_suffix_after_first :
    ∃ p, ReplayReach p [(⟨1, 0⟩, 5)] ∧ ∃ hW : p.seqBacktrack ≠ 0, 0 < p.timeBacktrack ∧
      (∃ pre suf, (p.window hW).toList = pre ++ suf ∧ seqExpired ∉ pre ∧
        ∀ x ∈ suf, x = seqExpired) ∧
      ∀ T, ∀ a ∈ [((⟨1, 0⟩ : PacketIdNet), (5 : Int))], a.1.time = p.time →
        a.2 + p.timeBacktrack < T → ∀ pin : PacketIdNet, pin.time = p.time →
          pin.id.toNat ≤ a.1.id.toNat → packetIdTest (packetIdReap p T) pin = false := by
  have h₀ : packetIdInit 64 15 = some ((packetIdInit 64 15).get (by decide)) :=
    (Option.some_get _).symm
  have htest : packetIdTest (packetIdReapTest ((packetIdInit 64 15).get (by decide)) 5) ⟨1, 0⟩ =
      true := by decide
  obtain ⟨seq, hs⟩ : ∃ seq,
      (packetIdReapTest ((packetIdInit 64 15).get (by decide)) 5).seqList = some seq := ⟨_, rfl⟩
  obtain ⟨-, -, -, p, -, hadd, -, hsb, -⟩ :=
    packetIdAdd_udp_of_test (by decide) htest (by decide : (2 : Int) ≤ 5) hs
  have hstep : cryptoCheckReplay ((packetIdInit 64 15).get (by decide)) ⟨1, 0⟩ 5 =
      some (p, true) := by
    unfold cryptoCheckReplay
    dsimp only
    rw [if_pos htest, hadd]
    rfl
  have hreach := ReplayReach.step (ReplayReach.init h₀) (by decide) hstep
  have hW : p.seqBacktrack ≠ 0 := by
    rw [hsb]
    decide
  have hTB : 0 < p.timeBacktrack := by
    rw [(packetIdAdd_keeps hadd).2]
    decide
  exact ⟨p, hreach, hW, hTB, packet_id_reap_expired_suffix hreach hW hTB⟩

/-- The law speaks of pins accepted at the current time: one accepted at an earlier time gives no
refusal. Id 100 at time 1 arrives on clock value 2, then id 5 at time 2 on clock value 3; after a
reap at 1000, id 6 at time 2 passes, though `6 ≤ 100` and `2 + 15 < 1000`. -/
theorem packet_id_reap_earlier_time_not_refused :
    ∃ p, ReplayReach p [(⟨5, 2⟩, 3), (⟨100, 1⟩, 2)] ∧ p.seqBacktrack ≠ 0 ∧
      0 < p.timeBacktrack ∧ packetIdTest (packetIdReap p 1000) ⟨6, 2⟩ = true := by
  have h₀ : packetIdInit 64 15 = some ((packetIdInit 64 15).get (by decide)) :=
    (Option.some_get _).symm
  have hsome : ((packetIdInit 64 15).get (by decide)).seqList.isSome := by decide
  -- first call: no reap yet, id 100 at time 1 starts the window
  have hr₁ : packetIdReapTest ((packetIdInit 64 15).get (by decide)) 2 =
      (packetIdInit 64 15).get (by decide) := packetIdReapTest_of_lt (by decide)
  have htest₁ : packetIdTest ((packetIdInit 64 15).get (by decide)) ⟨100, 1⟩ = true := by decide
  obtain ⟨-, -, -, p₁, -, hadd₁, -, hsb₁, htime₁, hid₁, -⟩ :=
    packetIdAdd_udp_of_test (by decide) htest₁ (by decide : (2 : Int) ≤ 2)
      (Option.some_get hsome).symm
  have hstep₁ : cryptoCheckReplay ((packetIdInit 64 15).get (by decide)) ⟨100, 1⟩ 2 =
      some (p₁, true) := by
    unfold cryptoCheckReplay
    dsimp only
    rw [hr₁, if_pos htest₁, hadd₁]
    rfl
  have ht₁ : p₁.time = 1 := by
    rw [htime₁, if_pos ((startsNewList_iff _ _ _).mpr (Or.inr (Or.inl (by decide))))]
  have hW₁ : p₁.seqBacktrack ≠ 0 := by rw [hsb₁]; decide
  -- second call: still no reap, id 5 at the later time 2 restarts the window
  have hr₂ : packetIdReapTest p₁ 3 = p₁ :=
    packetIdReapTest_of_lt (by rw [(packetIdAdd_keeps hadd₁).1]; decide)
  have htest₂ : packetIdTest p₁ ⟨5, 2⟩ = true :=
    (packetIdTest_udp p₁ ⟨5, 2⟩ hW₁ (window_size_lt p₁ hW₁ (by rw [hsb₁]; decide))).mpr
      ⟨by decide, Or.inl (by rw [ht₁]; decide)⟩
  have hnew₂ : startsNewList p₁ (p₁.window hW₁) ⟨5, 2⟩ = true :=
    (startsNewList_iff _ _ _).mpr (Or.inr (Or.inl (by rw [ht₁]; decide)))
  obtain ⟨-, -, -, p₂, -, hadd₂, -, hsb₂, htime₂, hid₂, -⟩ :=
    packetIdAdd_udp_of_test (by rw [hsb₁]; decide) htest₂ (by decide : (2 : Int) ≤ 3)
      (p₁.seqList_eq_window hW₁)
  have hstep₂ : cryptoCheckReplay p₁ ⟨5, 2⟩ 3 = some (p₂, true) := by
    unfold cryptoCheckReplay
    dsimp only
    rw [hr₂, if_pos htest₂, hadd₂]
    rfl
  have ht₂ : p₂.time = 2 := by rw [htime₂, if_pos hnew₂]
  have hid₂' : p₂.id.toNat = 5 := by
    have h5 : (⟨5, 2⟩ : PacketIdNet).id.toNat = 5 := rfl
    rw [hid₂]
    unfold startId
    rw [if_pos hnew₂, h5]
    omega
  have hreach := ReplayReach.step (ReplayReach.step (ReplayReach.init h₀) (by decide) hstep₁)
    (by decide) hstep₂
  have hW₂ : p₂.seqBacktrack ≠ 0 := by rw [hsb₂, hsb₁]; decide
  have hTB₂ : 0 < p₂.timeBacktrack := by
    rw [(packetIdAdd_keeps hadd₂).2, (packetIdAdd_keeps hadd₁).2]
    decide
  -- after the reap, id 6 is ahead of the highest id 5 of time 2
  have hW' : (packetIdReap p₂ 1000).seqBacktrack ≠ 0 := by
    rw [seqBacktrack_packetIdReap]
    exact hW₂
  have hsmall : (packetIdReap p₂ 1000).seqBacktrack.toNat ≤ 65536 := by
    rw [seqBacktrack_packetIdReap, hsb₂, hsb₁]
    decide
  have htest : packetIdTest (packetIdReap p₂ 1000) ⟨6, 2⟩ = true :=
    (packetIdTest_udp _ _ hW' (window_size_lt _ hW' hsmall)).mpr ⟨by decide,
      Or.inr ⟨by rw [time_packetIdReap, ht₂], Or.inl (by rw [id_packetIdReap, hid₂']; decide)⟩⟩
  exact ⟨p₂, hreach, hW₂, hTB₂, htest⟩

end OpenVpn
