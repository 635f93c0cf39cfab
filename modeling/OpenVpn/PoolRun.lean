import OpenVpn.PoolSpec

/-! The pool as the server drives it: persist reads, acquires for connecting clients and
releases, in any order. A run keeps the log of what `ifconfig_pool_set` recorded and of what each
acquire handed out. Every pool a run reaches from `ifconfig_pool_init` keeps the bounds of
`PoolRange`, so distinct handles get distinct addresses; without `duplicate_cn`, every grant of an
entry whose last record was read-only goes to the recorded common name. -/

namespace OpenVpn

open IfconfigPool (SameConfig)

/-- A call the server makes on the pool. -/
inductive PoolOp
  | read (fixed : Bool) (now : Int) (lines : List PersistLine)
  | acquire (commonName : Option String)
  | release (hand : Int) (hard : Bool) (now : Int)
  deriving DecidableEq, Repr

/-- An entry of the log: a handle and name `ifconfig_pool_set` recorded, and whether the file was
read-only; or the name a client asked with and what `ifconfig_pool_acquire` returned. -/
inductive PoolEvent
  | recorded (hand : Nat) (commonName : String) (fixed : Bool)
  | granted (commonName : Option String) (grant : PoolGrant)
  deriving DecidableEq, Repr

/-- One call; `none` where an `ASSERT` fails. -/
def poolStep (pool : IfconfigPool) : PoolOp → Option (IfconfigPool × List PoolEvent)
  | .read fixed now lines =>
      let r := ifconfigPoolRead pool fixed now lines
      some (r.1, r.2.map fun x => .recorded x.1 x.2 fixed)
  | .acquire cn => (ifconfigPoolAcquire pool cn).map fun r => (r.1, [.granted cn r.2])
  | .release hand hard now => some ((ifconfigPoolRelease pool hand hard now).1, [])

/-- A sequence of calls, and the log of all of them. -/
def poolRun (pool : IfconfigPool) : List PoolOp → Option (IfconfigPool × List PoolEvent)
  | [] => some (pool, [])
  | op :: ops => (poolStep pool op).bind fun r =>
      (poolRun r.1 ops).map fun s => (s.1, r.2 ++ s.2)

/-- The last record of handle `h` in a log: the common name and whether it was read-only. -/
def lastRecord (log : List PoolEvent) (h : Nat) : Option (String × Bool) :=
  log.foldl (fun acc ev => match ev with
    | .recorded h' cn fixed => if h' = h then some (cn, fixed) else acc
    | .granted _ _ => acc) none

/-- Every grant of an entry whose last record before it was read-only goes to the recorded name. -/
def FixedRespected (log : List PoolEvent) : Prop :=
  ∀ pre post cn g, log = pre ++ .granted cn g :: post → 0 ≤ g.hand →
    ∀ c, lastRecord pre g.hand.toNat = some (c, true) → cn = some c

/-- An entry whose last record was read-only is still fixed, and holds no name or the recorded
one. -/
def EntriesMatch (pool : IfconfigPool) (log : List PoolEvent) : Prop :=
  ∀ h e c, pool.list[h]? = some e → lastRecord log h = some (c, true) →
    e.fixed = true ∧ (e.commonName = none ∨ e.commonName = some c)

/-! ### The log -/

section Log

variable {log : List PoolEvent}

@[simp] theorem lastRecord_nil (h : Nat) : lastRecord [] h = none := rfl

@[simp] theorem lastRecord_append_granted (cn : Option String) (g : PoolGrant) (h : Nat) :
    lastRecord (log ++ [.granted cn g]) h = lastRecord log h := by
  simp [lastRecord, List.foldl_append]

@[simp] theorem lastRecord_append_recorded (h' : Nat) (cn : String) (fixed : Bool) (h : Nat) :
    lastRecord (log ++ [.recorded h' cn fixed]) h =
      if h' = h then some (cn, fixed) else lastRecord log h := by
  simp [lastRecord, List.foldl_append]

theorem fixedRespected_nil : FixedRespected [] := by
  intro pre post cn g h
  simp at h

/-- A grant in a log extended by one event is that event, or a grant of the log before it. -/
theorem eq_append_granted {pre post : List PoolEvent} {cn : Option String} {g : PoolGrant}
    {x : PoolEvent} (heq : log ++ [x] = pre ++ .granted cn g :: post) :
    (pre = log ∧ x = .granted cn g) ∨ ∃ post', log = pre ++ .granted cn g :: post' := by
  rcases List.eq_nil_or_concat post with rfl | ⟨post', y, rfl⟩
  · obtain ⟨h1, h2⟩ := List.append_inj' heq rfl
    exact Or.inl ⟨h1.symm, by simpa using h2⟩
  · have heq' : log ++ [x] = (pre ++ .granted cn g :: post') ++ [y] := by simp [heq]
    exact Or.inr ⟨post', (List.append_inj' heq' rfl).1⟩

theorem fixedRespected_append_recorded (hf : FixedRespected log) (h : Nat) (cn : String)
    (fixed : Bool) : FixedRespected (log ++ [.recorded h cn fixed]) := by
  intro pre post cn' g heq
  rcases eq_append_granted heq with ⟨-, hx⟩ | ⟨post', hlog⟩
  · cases hx
  · exact hf pre post' cn' g hlog

theorem fixedRespected_append_granted (hf : FixedRespected log) {cn : Option String}
    {g : PoolGrant} (hg : 0 ≤ g.hand → ∀ c, lastRecord log g.hand.toNat = some (c, true) → cn = some c) :
    FixedRespected (log ++ [.granted cn g]) := by
  intro pre post cn' g' heq
  rcases eq_append_granted heq with ⟨rfl, hx⟩ | ⟨post', hlog⟩
  · cases hx
    exact hg
  · exact hf pre post' cn' g' hlog

/-- A persist read only adds records. -/
theorem fixedRespected_append_records (fixed : Bool) (rs : List (Nat × String)) :
    ∀ {log}, FixedRespected log →
      FixedRespected (log ++ rs.map fun x => PoolEvent.recorded x.1 x.2 fixed) := by
  induction rs with
  | nil => simp
  | cons r rs ih =>
      intro log hf
      rw [List.map_cons, ← List.singleton_append, ← List.append_assoc]
      exact ih (fixedRespected_append_recorded hf r.1 r.2 fixed)

end Log

/-! ### Entries against the log -/

section Entries

variable {pool : IfconfigPool} {log : List PoolEvent}

theorem entriesMatch_nil (pool : IfconfigPool) : EntriesMatch pool [] := by
  intro h e c _ hrec
  simp at hrec

theorem EntriesMatch.append_granted (hm : EntriesMatch pool log) (cn : Option String)
    (g : PoolGrant) : EntriesMatch pool (log ++ [.granted cn g]) := by
  intro h e c he hrec
  rw [lastRecord_append_granted] at hrec
  exact hm h e c he hrec

/-- `ifconfig_pool_set` writes the entry its record describes. -/
theorem entriesMatch_set (hm : EntriesMatch pool log) (cn : String) (h : Nat) (fixed : Bool)
    (now : Int) : EntriesMatch (ifconfigPoolSet pool cn h fixed now) (log ++ [.recorded h cn fixed]) := by
  intro h' e c he hrec
  simp only [ifconfigPoolSet, List.getElem?_modify, Option.map_eq_map, Option.map_eq_some_iff] at he
  obtain ⟨e₀, he₀, rfl⟩ := he
  rw [lastRecord_append_recorded] at hrec
  split_ifs at hrec ⊢ with hh
  · simp only [Option.some.injEq, Prod.mk.injEq] at hrec
    obtain ⟨rfl, rfl⟩ := hrec
    exact ⟨rfl, Or.inr rfl⟩
  · exact hm h' e₀ c he₀ hrec

theorem entriesMatch_read (fixed : Bool) (now : Int) (lines : List PersistLine) :
    ∀ {pool log}, EntriesMatch pool log →
      EntriesMatch (ifconfigPoolRead pool fixed now lines).1
        (log ++ (ifconfigPoolRead pool fixed now lines).2.map
          fun x => PoolEvent.recorded x.1 x.2 fixed) := by
  induction lines with
  | nil =>
      intro pool log hm
      simpa [ifconfigPoolRead] using hm
  | cons line lines ih =>
      intro pool log hm
      simp only [ifconfigPoolRead]
      split_ifs
      · rw [List.map_cons, List.append_cons]
        exact ih (entriesMatch_set hm _ _ _ _)
      · exact ih hm

/-- A release frees an entry and keeps its `fixed` flag and its name or none. -/
theorem entriesMatch_release (hm : EntriesMatch pool log) (hand : Int) (hard : Bool) (now : Int) :
    EntriesMatch (ifconfigPoolRelease pool hand hard now).1 log := by
  unfold ifconfigPoolRelease
  split_ifs
  · intro h e c he hrec
    simp only [List.getElem?_modify, Option.map_eq_map, Option.map_eq_some_iff] at he
    obtain ⟨e₀, he₀, rfl⟩ := he
    obtain ⟨hfix, hname⟩ := hm h e₀ c he₀ hrec
    split_ifs
    · refine ⟨hfix, ?_⟩
      simp only [ifconfigPoolEntryFree]
      split_ifs
      · exact Or.inl rfl
      · exact hname
    · exact ⟨hfix, hname⟩
  · exact hm

/-- Without `duplicate_cn`, an acquire of an entry whose last record was read-only is by the
recorded name, and the entry keeps matching the log. -/
theorem acquire_respects (hdup : pool.duplicateCn = false) (hm : EntriesMatch pool log)
    {cn : Option String} {pool' : IfconfigPool} {g : PoolGrant}
    (h : ifconfigPoolAcquire pool cn = some (pool', g)) :
    (0 ≤ g.hand → ∀ c, lastRecord log g.hand.toNat = some (c, true) → cn = some c) ∧
      EntriesMatch pool' (log ++ [.granted cn g]) := by
  rcases ifconfigPoolAcquire_cases pool cn with ⟨-, hacq⟩ | ⟨i, e, -, he, -, hq, hacq⟩
  · rw [hacq, Option.some.injEq, Prod.mk.injEq] at h
    obtain ⟨rfl, rfl⟩ := h
    exact ⟨fun h0 => absurd h0 (by decide), hm.append_granted cn _⟩
  · rw [hacq, Option.some.injEq, Prod.mk.injEq] at h
    obtain ⟨rfl, rfl⟩ := h
    -- the entry taken: fixed entries are taken by their recorded name only
    have hname : ∀ c, lastRecord log i = some (c, true) → cn = some c := by
      intro c hrec
      obtain ⟨hfix, hcn⟩ := hm i e c he hrec
      have hsame := hq hdup hfix
      rcases hcn with hcn | hcn <;> rw [hcn] at hsame
      · simp [sameCommonName] at hsame
      · cases cn with
        | none => simp [sameCommonName] at hsame
        | some a => simpa [sameCommonName] using hsame
    refine ⟨fun _ c hrec => hname c (by simpa using hrec), ?_⟩
    intro h e' c he' hrec
    rw [lastRecord_append_granted] at hrec
    rw [List.getElem?_set] at he'
    split_ifs at he' with hh
    · subst hh
      simp only [Option.some.injEq] at he'
      subst he'
      exact ⟨(hm i e c he hrec).1, Or.inr (hname c hrec)⟩
    · exact hm h e' c he' hrec

end Entries

/-! ### Runs -/

section Runs

variable {pool pool' : IfconfigPool} {log ev : List PoolEvent}

theorem poolStep_sameConfig {op : PoolOp} (h : poolStep pool op = some (pool', ev)) :
    SameConfig pool pool' := by
  cases op with
  | read fixed now lines =>
      simp only [poolStep, Option.some.injEq, Prod.mk.injEq] at h
      exact h.1 ▸ ifconfigPoolRead_sameConfig fixed now lines pool
  | acquire cn =>
      simp only [poolStep, Option.map_eq_some_iff] at h
      obtain ⟨⟨q, g⟩, hq, hr⟩ := h
      simp only [Prod.mk.injEq] at hr
      exact hr.1 ▸ ifconfigPoolAcquire_sameConfig hq
  | release hand hard now =>
      simp only [poolStep, Option.some.injEq, Prod.mk.injEq] at h
      exact h.1 ▸ ifconfigPoolRelease_sameConfig pool hand hard now

/-- A run is a step followed by a run. -/
theorem poolRun_cons {op : PoolOp} {ops : List PoolOp}
    (h : poolRun pool (op :: ops) = some (pool', log)) :
    ∃ q ev evs, poolStep pool op = some (q, ev) ∧ poolRun q ops = some (pool', evs) ∧
      log = ev ++ evs := by
  simp only [poolRun, Option.bind_eq_some_iff, Option.map_eq_some_iff] at h
  obtain ⟨⟨q, ev⟩, hstep, ⟨q', evs⟩, hrun, hr⟩ := h
  simp only [Prod.mk.injEq] at hr
  obtain ⟨rfl, rfl⟩ := hr
  exact ⟨q, ev, evs, hstep, hrun, rfl⟩

theorem poolRun_sameConfig (ops : List PoolOp) :
    ∀ {pool pool' log}, poolRun pool ops = some (pool', log) → SameConfig pool pool' := by
  induction ops with
  | nil =>
      intro pool pool' log h
      simp only [poolRun, Option.some.injEq, Prod.mk.injEq] at h
      exact h.1 ▸ .refl pool
  | cons op ops ih =>
      intro pool pool' log h
      obtain ⟨q, ev, evs, hstep, hrun, -⟩ := poolRun_cons h
      exact (poolStep_sameConfig hstep).trans (ih hrun)

/-- Every sequence of calls runs to its end: the `ASSERT` of acquire never fails. -/
theorem poolRun_total (ops : List PoolOp) : ∀ pool, ∃ pool' log, poolRun pool ops = some (pool', log) := by
  induction ops with
  | nil => exact fun pool => ⟨pool, [], rfl⟩
  | cons op ops ih =>
      intro pool
      have hstep : ∃ q ev, poolStep pool op = some (q, ev) := by
        cases op with
        | read fixed now lines => exact ⟨_, _, rfl⟩
        | acquire cn =>
            rcases ifconfigPoolAcquire_cases pool cn with ⟨-, h⟩ | ⟨i, e, -, -, -, -, h⟩ <;>
              exact ⟨_, _, by rw [poolStep, h]; rfl⟩
        | release hand hard now => exact ⟨_, _, rfl⟩
      obtain ⟨q, ev, hs⟩ := hstep
      obtain ⟨q', evs, hr⟩ := ih q
      exact ⟨q', ev ++ evs, by simp [poolRun, hs, hr]⟩

/-- Without `duplicate_cn`, one call keeps the entries matching the log and hands fixed entries
to their recorded names only. -/
theorem poolStep_respects (hdup : pool.duplicateCn = false) (hm : EntriesMatch pool log)
    (hf : FixedRespected log) {op : PoolOp} (h : poolStep pool op = some (pool', ev)) :
    EntriesMatch pool' (log ++ ev) ∧ FixedRespected (log ++ ev) := by
  cases op with
  | read fixed now lines =>
      simp only [poolStep, Option.some.injEq, Prod.mk.injEq] at h
      obtain ⟨rfl, rfl⟩ := h
      exact ⟨entriesMatch_read fixed now lines hm, fixedRespected_append_records fixed _ hf⟩
  | acquire cn =>
      simp only [poolStep, Option.map_eq_some_iff] at h
      obtain ⟨⟨q, g⟩, hq, hr⟩ := h
      simp only [Prod.mk.injEq] at hr
      obtain ⟨rfl, rfl⟩ := hr
      obtain ⟨hg, hm'⟩ := acquire_respects hdup hm hq
      exact ⟨hm', fixedRespected_append_granted hf hg⟩
  | release hand hard now =>
      simp only [poolStep, Option.some.injEq, Prod.mk.injEq] at h
      obtain ⟨rfl, rfl⟩ := h
      rw [List.append_nil]
      exact ⟨entriesMatch_release hm hand hard now, hf⟩

theorem poolRun_respects (ops : List PoolOp) :
    ∀ {pool pool' log evs}, pool.duplicateCn = false → EntriesMatch pool log → FixedRespected log →
      poolRun pool ops = some (pool', evs) → EntriesMatch pool' (log ++ evs) ∧ FixedRespected (log ++ evs) := by
  induction ops with
  | nil =>
      intro pool pool' log evs _ hm hf h
      simp only [poolRun, Option.some.injEq, Prod.mk.injEq] at h
      obtain ⟨rfl, rfl⟩ := h
      simpa using ⟨hm, hf⟩
  | cons op ops ih =>
      intro pool pool' log evs hdup hm hf h
      obtain ⟨q, ev, evs', hstep, hrun, rfl⟩ := poolRun_cons h
      obtain ⟨hm', hf'⟩ := poolStep_respects hdup hm hf hstep
      have hdup' : q.duplicateCn = false := (poolStep_sameConfig hstep).duplicateCn_eq ▸ hdup
      rw [← List.append_assoc]
      exact ih hdup' hm' hf' hrun

end Runs

/-! ### Safety -/

/-- What a pool guarantees to the server: an acquire returns `-1` or a free entry of the pool and
the addresses of its handle; distinct handles have distinct addresses; an `INDIV` pool stays
within `[start, end]`. -/
structure PoolSafe (start endIp : UInt32) (pool : IfconfigPool) : Prop where
  acquire_free : ∀ cn, ∃ pool' g, ifconfigPoolAcquire pool cn = some (pool', g) ∧
    (g = ⟨-1, none, none⟩ ∨ ∃ (i : Nat) (e : PoolEntry),
      g = ⟨i, ifconfigPoolAddr4 pool i, ifconfigPoolAddr6 pool i⟩ ∧ pool.list[i]? = some e ∧
        e.inUse = false)
  addr4_disjoint : ∀ (i j : Nat) (a b : UInt32 × UInt32), i < pool.list.length →
    j < pool.list.length → i ≠ j → ifconfigPoolAddr4 pool i = some a →
    ifconfigPoolAddr4 pool j = some b →
      a.2 ≠ b.2 ∧ (pool.ipv4Type = .net30 → a.1 ≠ b.1 ∧ a.1 ≠ b.2 ∧ a.2 ≠ b.1)
  addr6_ne : ∀ (i j : Nat) (a b : In6Addr), i < pool.list.length → j < pool.list.length →
    i ≠ j → ifconfigPoolAddr6 pool i = some a → ifconfigPoolAddr6 pool j = some b → a ≠ b
  indiv_mem : pool.ipv4Type = .indiv → ∀ (i : Nat) (a : UInt32 × UInt32), i < pool.list.length →
    ifconfigPoolAddr4 pool i = some a → start ≤ a.2 ∧ a.2 ≤ endIp

theorem PoolRange.poolSafe {start endIp : UInt32} {pool : IfconfigPool}
    (hr : PoolRange start endIp pool) : PoolSafe start endIp pool where
  acquire_free cn := by
    rcases ifconfigPoolAcquire_cases pool cn with ⟨-, h⟩ | ⟨i, e, -, he, hu, -, h⟩
    · exact ⟨_, _, h, Or.inl rfl⟩
    · exact ⟨_, _, h, Or.inr ⟨i, e, rfl, he, hu⟩⟩
  addr4_disjoint _ _ _ _ hi hj hij ha hb := ifconfigPoolAddr4_disjoint hr hi hj hij ha hb
  addr6_ne _ _ _ _ hi hj hij ha hb hab := hij (ifconfigPoolAddr6_injective hr hi hj ha hb hab)
  indiv_mem ht _ _ hi ha := ifconfigPoolAddr4_indiv_mem hr ht hi ha

theorem ifconfig_pool_allocation_safe {ipv4Pool : Bool} {type : PoolType} {start endIp : UInt32}
    {duplicateCn ipv6Pool : Bool} {ipv6Base : In6Addr} {ipv6Netbits : Int} {pool₀ : IfconfigPool}
    (hinit : ifconfigPoolInit ipv4Pool type start endIp duplicateCn ipv6Pool ipv6Base ipv6Netbits =
      some pool₀) :
    ifconfigPoolVerifyRange start endIp = true ∧
      (∀ ops, ∃ pool log, poolRun pool₀ ops = some (pool, log)) ∧
      ∀ ops pool log, poolRun pool₀ ops = some (pool, log) →
        PoolSafe start endIp pool ∧ (duplicateCn = false → FixedRespected log) := by
  obtain ⟨hv, hdup, -, -, -, hr⟩ := ifconfigPoolInit_spec hinit
  refine ⟨hv, fun ops => poolRun_total ops pool₀, fun ops pool log hrun => ⟨?_, fun hd => ?_⟩⟩
  · exact (hr.of_sameConfig (poolRun_sameConfig ops hrun)).poolSafe
  · have h := poolRun_respects ops (hdup.trans hd) (entriesMatch_nil pool₀) fixedRespected_nil hrun
    simpa using h.2

/-- An `INDIV` pool of the two addresses `10.8.0.2` and `10.8.0.3`, as `ifconfig_pool_init`
builds it. -/
def samplePool (duplicateCn : Bool) : IfconfigPool :=
  ⟨duplicateCn, true, .indiv, 0x0A080002, false, In6Addr.any, List.replicate 2 PoolEntry.clear⟩

theorem ifconfig_pool_allocation_safe_two_addresses :
    ifconfigPoolInit true .indiv 0x0A080002 0x0A080003 false false In6Addr.any 0 =
        some (samplePool false) ∧
      ifconfigPoolVerifyRange 0x0A080002 0x0A080003 = true ∧
      (∀ ops, ∃ pool log, poolRun (samplePool false) ops = some (pool, log)) ∧
      ∀ ops pool log, poolRun (samplePool false) ops = some (pool, log) →
        PoolSafe 0x0A080002 0x0A080003 pool ∧ FixedRespected log := by
  have hinit : ifconfigPoolInit true .indiv 0x0A080002 0x0A080003 false false In6Addr.any 0 =
      some (samplePool false) := rfl
  obtain ⟨hv, htotal, hsafe⟩ := ifconfig_pool_allocation_safe hinit
  exact ⟨hinit, hv, htotal, fun ops pool log h => ⟨(hsafe ops pool log h).1, (hsafe ops pool log h).2 rfl⟩⟩

/-- In `duplicate_cn` mode a read-only persist file reserves nothing: after the line
`alice,10.8.0.2` the entry of `10.8.0.2` is fixed for `alice`, and an acquire by `bob` takes it. -/
theorem ifconfig_pool_duplicate_cn_ignores_fixed :
    ifconfigPoolInit true .indiv 0x0A080002 0x0A080003 true false In6Addr.any 0 =
        some (samplePool true) ∧
      ∃ pool log, poolRun (samplePool true)
          [.read true 0 [⟨"alice", .addr 0x0A080002, .empty⟩], .acquire (some "bob")] =
          some (pool, log) ∧ ¬ FixedRespected log := by
  refine ⟨rfl, _, _, rfl, fun hf => ?_⟩
  have h := hf [.recorded 0 "alice" true] [] (some "bob") ⟨0, some (0, 0x0A080002), none⟩ rfl
    (by decide) "alice" rfl
  simp at h

end OpenVpn
