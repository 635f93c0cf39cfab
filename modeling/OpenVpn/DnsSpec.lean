import OpenVpn.Dns

/-! The DNS server list is strictly ascending by priority over every run of `--dns server`
options, a pull included. On such a list `dns_server_get` returns the entry of the priority when
there is one and otherwise allocates a zeroed entry between the entries below and above it, and
`dns_options_postprocess_pull` gives the pulled entries and the static ones whose priority no
pulled entry has, each object once, in ascending order. -/

namespace OpenVpn

@[simp] theorem DnsServer.priority_fresh (gc : Nat) (p : Int) : (DnsServer.fresh gc p).priority = p :=
  rfl

@[simp] theorem DnsServer.obj_fresh (gc : Nat) (p : Int) : (DnsServer.fresh gc p).obj = gc := rfl

/-- Strictly ascending by priority. -/
def PrioritySorted (l : List DnsServer) : Prop :=
  l.Pairwise fun a b => a.priority < b.priority

section Sorted

variable {a x : DnsServer} {l : List DnsServer}

theorem prioritySorted_cons :
    PrioritySorted (a :: l) ↔ (∀ b ∈ l, a.priority < b.priority) ∧ PrioritySorted l :=
  List.pairwise_cons

theorem PrioritySorted.tail (h : PrioritySorted (a :: l)) : PrioritySorted l :=
  (prioritySorted_cons.mp h).2

theorem PrioritySorted.lt_of_mem (h : PrioritySorted (a :: l)) {b : DnsServer} (hb : b ∈ l) :
    a.priority < b.priority :=
  (prioritySorted_cons.mp h).1 b hb

/-- Every entry of a sorted list is at least its head. -/
theorem PrioritySorted.le_of_mem (h : PrioritySorted (a :: l)) {b : DnsServer} (hb : b ∈ a :: l) :
    a.priority ≤ b.priority := by
  rcases List.mem_cons.mp hb with rfl | hb
  · exact Int.le_refl _
  · exact Int.le_of_lt (h.lt_of_mem hb)

/-- An entry put between the entries below and above its priority keeps the list sorted. -/
theorem PrioritySorted.insert (h : PrioritySorted l) (x : DnsServer) :
    PrioritySorted (l.filter (fun e => e.priority < x.priority) ++
      x :: l.filter (fun e => x.priority < e.priority)) := by
  unfold PrioritySorted at h ⊢
  refine List.pairwise_append.mpr ⟨h.filter _, List.pairwise_cons.mpr ⟨?_, h.filter _⟩, ?_⟩
  · intro b hb
    simpa using (List.mem_filter.mp hb).2
  · intro b hb c hc
    have hbx : b.priority < x.priority := by simpa using (List.mem_filter.mp hb).2
    rcases List.mem_cons.mp hc with rfl | hc
    · exact hbx
    · exact Int.lt_trans hbx (by simpa using (List.mem_filter.mp hc).2)

/-- With no entry of `x`'s priority, the entries below and above it are all of the list. -/
theorem perm_insert (h : ∀ e ∈ l, e.priority ≠ x.priority) :
    (l.filter (fun e => e.priority < x.priority) ++
      x :: l.filter (fun e => x.priority < e.priority)).Perm (x :: l) := by
  have hsplit : l.filter (fun e => x.priority < e.priority) =
      l.filter (fun e => !decide (e.priority < x.priority)) := by
    refine List.filter_congr fun e he => ?_
    have := h e he
    by_cases hlt : e.priority < x.priority
    · simp [hlt, show ¬x.priority < e.priority by omega]
    · simp [hlt, show x.priority < e.priority by omega]
  rw [hsplit]
  exact List.perm_middle.trans ((List.filter_append_perm _ l).cons x)

end Sorted

section Get

variable {l : List DnsServer} {p : Int} {gc : Nat}

/-- `dns_server_get` on a sorted list: the entry of the priority when there is one, and otherwise a
fresh entry between the entries below and above it, with the arena one object further. -/
theorem dnsServerGet_eq (hl : PrioritySorted l) :
    dnsServerGet p gc l = match l.find? (fun e => e.priority = p) with
      | some e => (l, e, gc)
      | none => (l.filter (fun e => e.priority < p) ++
          .fresh gc p :: l.filter (fun e => p < e.priority), .fresh gc p, gc + 1) := by
  fun_induction dnsServerGet p gc l with
  | case1 => rfl
  | case2 obj rest hgt =>
      -- the whole list is above the priority
      have habove : ∀ e ∈ obj :: rest, p < e.priority := fun e he =>
        Int.lt_of_lt_of_le hgt (hl.le_of_mem he)
      rw [List.find?_eq_none.mpr (fun e he => by simpa using Int.ne_of_gt (habove e he)),
        List.filter_eq_nil_iff.mpr (fun e he => by simpa using Int.le_of_lt (habove e he)),
        List.filter_eq_self.mpr (fun e he => by simpa using habove e he)]
      rfl
  | case3 obj rest _ heq => rw [List.find?_cons_of_pos (by simpa using heq)]
  | case4 obj rest hgt hne rest' entry gc' hrec ih =>
      have hlt : obj.priority < p := by omega
      have hrest := hrec.symm.trans (ih hl.tail)
      rw [List.find?_cons_of_neg (by simpa using hne), List.filter_cons_of_pos (by simpa using hlt),
        List.filter_cons_of_neg (by simpa using Int.le_of_lt hlt)]
      -- the recursive call decides both the entry and the arena
      cases hf : rest.find? (fun e => e.priority = p) <;> rw [hf] at hrest <;>
        simp only [Prod.mk.injEq] at hrest <;> obtain ⟨rfl, rfl, rfl⟩ := hrest <;> rfl

/-- In a sorted list an entry is the only one of its priority. -/
theorem PrioritySorted.eq_of_priority_eq (hl : PrioritySorted l) {a b : DnsServer} (ha : a ∈ l)
    (hb : b ∈ l) (h : a.priority = b.priority) : a = b := by
  induction l with
  | nil => simp at ha
  | cons c l ih =>
      rw [List.mem_cons] at ha hb
      rcases ha with rfl | ha <;> rcases hb with rfl | hb
      · rfl
      · exact absurd h (Int.ne_of_lt (hl.lt_of_mem hb))
      · exact absurd h (Int.ne_of_gt (hl.lt_of_mem ha))
      · exact ih hl.tail ha hb

/-- `dns_server_get` of a priority the sorted list has returns its entry and changes nothing. -/
theorem dnsServerGet_of_mem (hl : PrioritySorted l) {e : DnsServer} (he : e ∈ l)
    (hp : e.priority = p) : dnsServerGet p gc l = (l, e, gc) := by
  rw [dnsServerGet_eq hl]
  cases hf : l.find? (fun e => e.priority = p) with
  | some e' =>
      have he' : e'.priority = p := by simpa using List.find?_some hf
      rw [hl.eq_of_priority_eq (List.mem_of_find?_eq_some hf) he (he'.trans hp.symm)]
  | none => exact absurd hp (by simpa using List.find?_eq_none.mp hf e he)

/-- `dns_server_get` of a priority the list does not have allocates the next object of the arena,
zeroed, between the entries below and above it. -/
theorem dnsServerGet_of_not_mem (hl : PrioritySorted l) (h : ∀ e ∈ l, e.priority ≠ p) :
    dnsServerGet p gc l = (l.filter (fun e => e.priority < p) ++
      .fresh gc p :: l.filter (fun e => p < e.priority), .fresh gc p, gc + 1) := by
  rw [dnsServerGet_eq hl, List.find?_eq_none.mpr (fun e he => by simpa using h e he)]

end Get

/-- The invariant of `struct dns_options` over every run: both lists sorted, their objects
allocated from the arena, none of them twice. -/
structure DnsOptionsWf (o : DnsOptions) : Prop where
  servers_sorted : PrioritySorted o.servers
  prepull_sorted : PrioritySorted o.serversPrepull
  obj_lt : ∀ e ∈ o.servers ++ o.serversPrepull, e.obj < o.gc
  nodup : ((o.servers ++ o.serversPrepull).map DnsServer.obj).Nodup

theorem dnsOptionsWf_empty : DnsOptionsWf ⟨[], [], 0⟩ :=
  ⟨List.Pairwise.nil, List.Pairwise.nil, by simp, by simp⟩

section Run

variable {o : DnsOptions}

/-- A `--dns server` option keeps the invariant: it either finds the entry or allocates a new
object between the entries below and above it. -/
theorem DnsOptionsWf.dnsServerOption (ho : DnsOptionsWf o) (p : Int) :
    DnsOptionsWf (OpenVpn.dnsServerOption o p) := by
  unfold OpenVpn.dnsServerOption
  rw [dnsServerGet_eq ho.servers_sorted]
  cases hf : o.servers.find? (fun e => e.priority = p) with
  | some e => exact ho
  | none =>
      have hnone : ∀ e ∈ o.servers, e.priority ≠ (DnsServer.fresh o.gc p).priority := by
        intro e he
        simpa using List.find?_eq_none.mp hf e he
      have hperm := perm_insert hnone
      -- the new list is the old one with the fresh object added
      have hperm' : ((o.servers.filter (fun e => e.priority < p) ++ .fresh o.gc p ::
          o.servers.filter (fun e => p < e.priority)) ++ o.serversPrepull).Perm
          (.fresh o.gc p :: (o.servers ++ o.serversPrepull)) := hperm.append_right _
      refine ⟨ho.servers_sorted.insert (.fresh o.gc p), ho.prepull_sorted, ?_, ?_⟩
      · intro e he
        rcases List.mem_cons.mp (hperm'.mem_iff.mp he) with rfl | he
        · exact Nat.lt_succ_self _
        · exact Nat.lt_succ_of_lt (ho.obj_lt e he)
      · refine (hperm'.map DnsServer.obj).nodup_iff.mpr (List.nodup_cons.mpr ⟨?_, ho.nodup⟩)
        intro hmem
        obtain ⟨e, he, heq⟩ := List.mem_map.mp hmem
        exact absurd heq (Nat.ne_of_lt (ho.obj_lt e he))

/-- `dns_options_preprocess_pull` keeps the invariant. -/
theorem DnsOptionsWf.preprocessPull (ho : DnsOptionsWf o) :
    DnsOptionsWf (dnsOptionsPreprocessPull o) where
  servers_sorted := List.Pairwise.nil
  prepull_sorted := ho.servers_sorted
  obj_lt e he := ho.obj_lt e (List.mem_append_left _ (by simpa [dnsOptionsPreprocessPull] using he))
  nodup := by
    simpa [dnsOptionsPreprocessPull] using ho.nodup.sublist ((List.sublist_append_left _ _).map _)

/-- Every run of `--dns server` options keeps the invariant. -/
theorem DnsOptionsWf.foldl (ho : DnsOptionsWf o) (ps : List Int) :
    DnsOptionsWf (ps.foldl OpenVpn.dnsServerOption o) := by
  induction ps generalizing o with
  | nil => exact ho
  | cons p ps ih => exact ih (ho.dnsServerOption p)

/-- The options leave the static list put aside where it is. -/
theorem serversPrepull_foldl (ps : List Int) :
    (ps.foldl OpenVpn.dnsServerOption o).serversPrepull = o.serversPrepull := by
  induction ps generalizing o with
  | nil => rfl
  | cons p ps ih => exact ih

end Run

section Merge

/-- The static entries that no pulled entry of `P` overrides. -/
def notOverridden (P S : List DnsServer) : List DnsServer :=
  S.filter fun s => s.priority ∉ P.map DnsServer.priority

/-- The merge takes its entries from the two lists. -/
theorem mem_dnsPostprocessPullMerge {P S : List DnsServer} {x : DnsServer}
    (hx : x ∈ dnsPostprocessPullMerge P S) : x ∈ P ∨ x ∈ S := by
  fun_induction dnsPostprocessPullMerge P S with
  | case1 S => exact Or.inr hx
  | case2 server rest => exact Or.inl hx
  | case3 server rest serverPp restPp _ ih =>
      rcases List.mem_cons.mp hx with rfl | hx
      · simp
      · rcases ih hx with h | h <;> simp [h]
  | case4 server rest serverPp restPp _ _ ih =>
      rcases List.mem_cons.mp hx with rfl | hx
      · simp
      · rcases ih hx with h | h <;> simp [h]
  | case5 server rest serverPp restPp _ _ ih =>
      rcases List.mem_cons.mp hx with rfl | hx
      · simp
      · rcases ih hx with h | h
        · simp [h]
        · rcases List.mem_cons.mp h with rfl | h <;> simp [h]

/-- A static list above `server` is overridden by `server :: rest` exactly where `rest` does. -/
theorem notOverridden_cons {server : DnsServer} {rest S : List DnsServer}
    (h : ∀ s ∈ S, server.priority < s.priority) :
    notOverridden (server :: rest) S = notOverridden rest S := by
  refine List.filter_congr fun s hs => ?_
  have hne : s.priority ≠ server.priority := Int.ne_of_gt (h s hs)
  simp only [List.map_cons, List.mem_cons, hne, false_or]

/-- The merge gives the pulled entries and the static ones they do not override. -/
theorem dnsPostprocessPullMerge_perm {P S : List DnsServer} (hP : PrioritySorted P)
    (hS : PrioritySorted S) : (dnsPostprocessPullMerge P S).Perm (P ++ notOverridden P S) := by
  fun_induction dnsPostprocessPullMerge P S with
  | case1 S => simp [notOverridden]
  | case2 server rest => simp [notOverridden]
  | case3 server rest serverPp restPp hgt ih =>
      -- `serverPp` is below every pulled entry, so nothing overrides it
      have hkeep : serverPp.priority ∉ (server :: rest).map DnsServer.priority := by
        intro hmem
        obtain ⟨e, he, heq⟩ := List.mem_map.mp hmem
        have := hP.le_of_mem he
        omega
      rw [notOverridden, List.filter_cons_of_pos (by simpa using hkeep)]
      exact ((ih hP hS.tail).cons serverPp).trans List.perm_middle.symm
  | case4 server rest serverPp restPp _ heq ih =>
      have habove : ∀ s ∈ restPp, server.priority < s.priority := fun s hs => by
        have := hS.lt_of_mem hs
        omega
      rw [notOverridden, List.filter_cons_of_neg (by simp [heq]), ← notOverridden,
        notOverridden_cons habove]
      exact (ih hP.tail hS.tail).cons server
  | case5 server rest serverPp restPp hgt hne ih =>
      have habove : ∀ s ∈ serverPp :: restPp, server.priority < s.priority := fun s hs => by
        have := hS.le_of_mem hs
        omega
      rw [List.cons_append, notOverridden_cons habove]
      exact (ih hP.tail hS).cons server

/-- Everything the merge gives is above a bound both lists are above. -/
theorem lt_of_mem_dnsPostprocessPullMerge {P S : List DnsServer} {k : Int}
    (hP : ∀ e ∈ P, k < e.priority) (hS : ∀ e ∈ S, k < e.priority) :
    ∀ e ∈ dnsPostprocessPullMerge P S, k < e.priority := fun e he =>
  (mem_dnsPostprocessPullMerge he).elim (hP e) (hS e)

/-- The merge of two sorted lists is sorted. -/
theorem PrioritySorted.dnsPostprocessPullMerge {P S : List DnsServer} (hP : PrioritySorted P)
    (hS : PrioritySorted S) : PrioritySorted (OpenVpn.dnsPostprocessPullMerge P S) := by
  fun_induction OpenVpn.dnsPostprocessPullMerge P S with
  | case1 S => exact hS
  | case2 server rest => exact hP
  | case3 server rest serverPp restPp hgt ih =>
      refine prioritySorted_cons.mpr ⟨lt_of_mem_dnsPostprocessPullMerge ?_ ?_, ih hP hS.tail⟩
      · intro e he
        have := hP.le_of_mem he
        omega
      · exact fun e he => hS.lt_of_mem he
  | case4 server rest serverPp restPp _ heq ih =>
      refine prioritySorted_cons.mpr ⟨lt_of_mem_dnsPostprocessPullMerge ?_ ?_, ih hP.tail hS.tail⟩
      · exact fun e he => hP.lt_of_mem he
      · intro e he
        have := hS.lt_of_mem he
        omega
  | case5 server rest serverPp restPp hgt hne ih =>
      refine prioritySorted_cons.mpr ⟨lt_of_mem_dnsPostprocessPullMerge ?_ ?_, ih hP.tail hS⟩
      · exact fun e he => hP.lt_of_mem he
      · intro e he
        have := hS.le_of_mem he
        omega

/-- `dns_options_postprocess_pull` keeps the invariant. -/
theorem DnsOptionsWf.postprocessPull {o : DnsOptions} (ho : DnsOptionsWf o) :
    DnsOptionsWf (dnsOptionsPostprocessPull o) := by
  have hperm := dnsPostprocessPullMerge_perm ho.servers_sorted ho.prepull_sorted
  -- the merged objects are some of the objects of both lists
  have hsub : (o.servers ++ notOverridden o.servers o.serversPrepull).Sublist
      (o.servers ++ o.serversPrepull) := List.filter_sublist.append_left _
  refine ⟨ho.servers_sorted.dnsPostprocessPullMerge ho.prepull_sorted, List.Pairwise.nil, ?_, ?_⟩
  · intro e he
    simp only [dnsOptionsPostprocessPull, List.append_nil] at he
    exact ho.obj_lt e (hsub.subset (hperm.mem_iff.mp he))
  · simp only [dnsOptionsPostprocessPull, List.append_nil]
    exact (hperm.map _).nodup_iff.mpr (ho.nodup.sublist (hsub.map _))

end Merge

/-- Over every run of `--dns server` options from empty options the list is strictly ascending,
and `dns_server_get` either returns the entry of its priority, changing nothing, or puts a zeroed
fresh object in its place. Over every pull, the static run put aside and a pulled run collected, the
merge gives the pulled entries and the static ones they do not override, each object once, in
ascending order. -/
theorem dns_server_list_sorted_and_pull_merge :
    (∀ (ps : List Int) (p : Int),
      let o := ps.foldl dnsServerOption ⟨[], [], 0⟩
      PrioritySorted o.servers ∧
      (∀ e ∈ o.servers, e.priority = p → dnsServerGet p o.gc o.servers = (o.servers, e, o.gc)) ∧
      ((∀ e ∈ o.servers, e.priority ≠ p) →
        dnsServerGet p o.gc o.servers = (o.servers.filter (fun e => e.priority < p) ++
          .fresh o.gc p :: o.servers.filter (fun e => p < e.priority), .fresh o.gc p, o.gc + 1)) ∧
      PrioritySorted (dnsServerGet p o.gc o.servers).1) ∧
    (∀ ps qs : List Int,
      let static := ps.foldl dnsServerOption ⟨[], [], 0⟩
      let o := qs.foldl dnsServerOption (dnsOptionsPreprocessPull static)
      let o' := dnsOptionsPostprocessPull o
      o.serversPrepull = static.servers ∧ PrioritySorted o'.servers ∧
      o'.servers.Perm (o.servers ++ notOverridden o.servers static.servers) ∧
      (o'.servers.map DnsServer.obj).Nodup ∧ o'.serversPrepull = []) := by
  refine ⟨fun ps p => ?_, fun ps qs => ?_⟩
  · have ho := dnsOptionsWf_empty.foldl ps
    exact ⟨ho.servers_sorted, fun e he hp => dnsServerGet_of_mem ho.servers_sorted he hp,
      dnsServerGet_of_not_mem ho.servers_sorted,
      (ho.dnsServerOption p).servers_sorted⟩
  · have hstatic := dnsOptionsWf_empty.foldl ps
    have ho := hstatic.preprocessPull.foldl qs
    have hprepull : (qs.foldl dnsServerOption (dnsOptionsPreprocessPull
        (ps.foldl dnsServerOption ⟨[], [], 0⟩))).serversPrepull =
        (ps.foldl dnsServerOption ⟨[], [], 0⟩).servers := serversPrepull_foldl qs
    have ho' := ho.postprocessPull
    refine ⟨hprepull, ho'.servers_sorted, ?_, ?_, rfl⟩
    · rw [← hprepull]
      exact dnsPostprocessPullMerge_perm ho.servers_sorted ho.prepull_sorted
    · simpa [dnsOptionsPostprocessPull] using ho'.nodup

end OpenVpn
