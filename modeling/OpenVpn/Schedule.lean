import OpenVpn.Buffer

/-! `schedule.c` and `schedule.h`: the timer tree of the event loop, a treap of caller-owned
`struct schedule_entry` nodes keyed by wakeup time and a random priority. The entries live in the
caller's memory, so the model keeps them as a function from entry addresses `E` to their contents,
beside the two pointers of `struct schedule`. The values `random()` returns during a call are the
list `pris`; a call that needs more returns `none`. Every loop runs on a fuel argument and returns
`none` when the fuel runs out, as it returns `none` where an `ASSERT` fails. -/

namespace OpenVpn

/-- `struct timeval`. -/
structure Timeval where
  tvSec : Int
  tvUsec : Int
  deriving DecidableEq, Repr

/-- `struct schedule_entry`. -/
structure ScheduleEntry (E : Type) where
  tv : Timeval
  pri : UInt32
  parent : Option E
  lt : Option E
  gt : Option E
  deriving DecidableEq, Repr

/-- `struct schedule`, with the entries it links. -/
structure Schedule (E : Type) where
  earliestWakeup : Option E
  root : Option E
  entry : E → ScheduleEntry E

/-- `constrain_int`. -/
def constrainInt (x min max : Int) : Int :=
  if min > max then min else if x < min then min else if x > max then max else x

-- `TV_WITHIN_SIGMA_MAX_SEC`
def tvWithinSigmaMaxSec : Nat := 600

/-- `tv_subtract`: `tv1 - tv2` in microseconds, clamped to `max_seconds`. -/
def tvSubtract (tv1 tv2 : Timeval) (maxSeconds : Nat) : Int :=
  let maxUsec := toCInt (maxSeconds * 1000000)
  let secDiff := toCInt (tv1.tvSec - tv2.tvSec)
  if secDiff > maxSeconds + 10 then maxUsec
  else if secDiff < -(maxSeconds + 10 : Int) then -maxUsec
  else constrainInt (toCInt (secDiff * 1000000 + (tv1.tvUsec - tv2.tvUsec))) (-maxUsec) maxUsec

/-- `tv_within_sigma`. -/
def tvWithinSigma (t1 t2 : Timeval) (sigma : UInt32) : Bool :=
  let delta := tvSubtract t1 t2 tvWithinSigmaMaxSec
  decide (-toCInt sigma.toNat ≤ delta) && decide (delta ≤ toCInt sigma.toNat)

namespace Schedule

variable {E : Type} [DecidableEq E]

/-- A write `*e = f(*e)` to one entry. -/
def modify (s : Schedule E) (e : E) (f : ScheduleEntry E → ScheduleEntry E) : Schedule E :=
  { s with entry := Function.update s.entry e (f (s.entry e)) }

/-- `e->parent = v`. -/
def setParent (s : Schedule E) (e : E) (v : Option E) : Schedule E :=
  s.modify e fun x => { x with parent := v }

/-- `e->lt = v`. -/
def setLt (s : Schedule E) (e : E) (v : Option E) : Schedule E :=
  s.modify e fun x => { x with lt := v }

/-- `e->gt = v`. -/
def setGt (s : Schedule E) (e : E) (v : Option E) : Schedule E :=
  s.modify e fun x => { x with gt := v }

/-- `e->pri = v`. -/
def setPri (s : Schedule E) (e : E) (v : UInt32) : Schedule E :=
  s.modify e fun x => { x with pri := v }

/-- `e->tv = v`. -/
def setTv (s : Schedule E) (e : E) (v : Timeval) : Schedule E :=
  s.modify e fun x => { x with tv := v }

/-- `if (c) c->parent = v`. -/
def setParentOpt (s : Schedule E) (c v : Option E) : Schedule E :=
  match c with
  | some c => s.setParent c v
  | none => s

end Schedule

section Scheduler

variable {E : Type} [DecidableEq E]

/-- `schedule_set_pri`, with `r` the value of `random()`. -/
def scheduleSetPri (s : Schedule E) (e : E) (r : UInt32) : Schedule E :=
  let s := s.setPri e r
  if (s.entry e).pri < 1 then s.setPri e 1 else s

/-- `schedule_entry_compare`: by `tv_sec`, then `tv_usec`, then `pri`. -/
def scheduleEntryCompare (e1 e2 : ScheduleEntry E) : Int :=
  if e1.tv.tvSec < e2.tv.tvSec then -1
  else if e1.tv.tvSec > e2.tv.tvSec then 1
  else if e1.tv.tvUsec < e2.tv.tvUsec then -1
  else if e1.tv.tvUsec > e2.tv.tvUsec then 1
  else if e1.pri < e2.pri then -1
  else if e1.pri > e2.pri then 1
  else 0

/-- `schedule_detach_parent`. -/
def scheduleDetachParent (s : Schedule E) (e : E) : Option (Schedule E) :=
  match (s.entry e).parent with
  | some p =>
      if (s.entry p).lt = some e then some ((s.setLt p none).setParent e none)
      else if (s.entry p).gt = some e then some ((s.setGt p none).setParent e none)
      -- parent <-> child linkage is corrupted
      else none
  | none => if s.root = some e then some { s with root := none } else some s

/-- The first step of `schedule_rotate_up`: the link to `p`, in its parent `gp` if it has one and
in the root otherwise, now points to `e`. -/
def scheduleRelinkParent (s : Schedule E) (gp : Option E) (p e : E) : Option (Schedule E) :=
  match gp with
  | some g =>
      if (s.entry g).gt = some p then some (s.setGt g (some e))
      else if (s.entry g).lt = some p then some (s.setLt g (some e))
      else none
  | none => some { s with root := some e }

/-- `schedule_rotate_up`: `e` takes its parent's place, and the parent becomes its child. -/
def scheduleRotateUp (s : Schedule E) (e : E) : Option (Schedule E) :=
  match (s.entry e).parent with
  | none => some s
  | some p => do
      let lt := (s.entry e).lt
      let gt := (s.entry e).gt
      let gp := (s.entry p).parent
      let s ← scheduleRelinkParent s gp p e
      let s := (s.setParent e gp).setParent p (some e)
      if (s.entry p).gt = some e then
        some (((s.setLt e (some p)).setGt p lt).setParentOpt lt (some p))
      else if (s.entry p).lt = some e then
        some (((s.setGt e (some p)).setLt p gt).setParentOpt gt (some p))
      else none

/-- The loop of `schedule_remove_node`: rotate the child of lesser priority up until `e` is a
leaf. -/
def scheduleRemoveNodeLoop (s : Schedule E) (e : E) : Nat → Option (Schedule E)
  | 0 => none
  | fuel + 1 =>
      match (s.entry e).lt, (s.entry e).gt with
      | none, none => some s
      | some l, some g =>
          if (s.entry l).pri < (s.entry g).pri then
            (scheduleRotateUp s l).bind fun s => scheduleRemoveNodeLoop s e fuel
          else (scheduleRotateUp s g).bind fun s => scheduleRemoveNodeLoop s e fuel
      | some l, none => (scheduleRotateUp s l).bind fun s => scheduleRemoveNodeLoop s e fuel
      | none, some g => (scheduleRotateUp s g).bind fun s => scheduleRemoveNodeLoop s e fuel

/-- `schedule_remove_node`. -/
def scheduleRemoveNode (s : Schedule E) (e : E) (fuel : Nat) : Option (Schedule E) := do
  let s ← scheduleRemoveNodeLoop s e fuel
  let s ← scheduleDetachParent s e
  pure (s.setPri e 0)

/-- The loop of `schedule_insert` from node `c`: descend by `schedule_entry_compare`, and on a
full collision draw a new priority and start again from the root. -/
def scheduleInsertLoop (s : Schedule E) (e c : E) (pris : List UInt32) :
    Nat → Option (Schedule E × List UInt32)
  | 0 => none
  | fuel + 1 =>
      let comp := scheduleEntryCompare (s.entry e) (s.entry c)
      if comp = -1 then
        match (s.entry c).lt with
        | some l => scheduleInsertLoop s e l pris fuel
        | none => some ((s.setLt c (some e)).setParent e (some c), pris)
      else if comp = 1 then
        match (s.entry c).gt with
        | some g => scheduleInsertLoop s e g pris fuel
        | none => some ((s.setGt c (some e)).setParent e (some c), pris)
      else
        match pris, s.root with
        | r :: pris, some root => scheduleInsertLoop (scheduleSetPri s e r) e root pris fuel
        | _, _ => none

/-- `schedule_insert`; its caller has a non-empty tree. -/
def scheduleInsert (s : Schedule E) (e : E) (pris : List UInt32) (fuel : Nat) :
    Option (Schedule E × List UInt32) :=
  match s.root with
  | some c => scheduleInsertLoop s e c pris fuel
  | none => none

/-- The loop of `schedule_add_modify`: rotate `e` up while its parent has a greater priority. -/
def scheduleAddModifyLoop (s : Schedule E) (e : E) : Nat → Option (Schedule E)
  | 0 => none
  | fuel + 1 =>
      match (s.entry e).parent with
      | some p =>
          if (s.entry p).pri > (s.entry e).pri then
            (scheduleRotateUp s e).bind fun s => scheduleAddModifyLoop s e fuel
          else some s
      | none => some s

/-- The insertion in `schedule_add_modify`: `schedule_insert` into a non-empty tree, and `e` as
the root of an empty one. -/
def scheduleAddModifyInsert (s : Schedule E) (e : E) (pris : List UInt32) (fuel : Nat) :
    Option (Schedule E × List UInt32) :=
  match s.root with
  | some _ => scheduleInsert s e pris fuel
  | none => some ({ s with root := some e }, pris)

/-- `schedule_add_modify`: take `e` out if it is in the tree, give it a new priority, insert it
as a leaf, and rotate it up. -/
def scheduleAddModify (s : Schedule E) (e : E) (pris : List UInt32) (fuel : Nat) :
    Option (Schedule E × List UInt32) :=
  (if (s.entry e).pri ≠ 0 then scheduleRemoveNode s e fuel else some s).bind fun s => do
    let (r, pris) ← pris.head?.map fun r => (r, pris.tail)
    let (s, pris) ← scheduleAddModifyInsert (scheduleSetPri s e r) e pris fuel
    let s ← scheduleAddModifyLoop s e fuel
    pure (s, pris)

/-- The loop of `schedule_find_least`: follow the left links. -/
def scheduleFindLeastLoop (s : Schedule E) (e : E) : Nat → Option E
  | 0 => none
  | fuel + 1 =>
      match (s.entry e).lt with
      | some l => scheduleFindLeastLoop s l fuel
      | none => some e

/-- `schedule_find_least`. -/
def scheduleFindLeast (s : Schedule E) (e : Option E) (fuel : Nat) : Option (Option E) :=
  match e with
  | some e => (scheduleFindLeastLoop s e fuel).map some
  | none => some none

/-- `schedule_init`, over the caller's entries. -/
def scheduleInit (entry : E → ScheduleEntry E) : Schedule E := ⟨none, none, entry⟩

/-- `schedule_add_entry`: (re)schedule `e` at `tv`, unless it is scheduled within `sigma`
microseconds of `tv` already. -/
def scheduleAddEntry (s : Schedule E) (e : E) (tv : Timeval) (sigma : UInt32)
    (pris : List UInt32) (fuel : Nat) : Option (Schedule E × List UInt32) :=
  if (s.entry e).pri = 0 ∨ sigma = 0 ∨ tvWithinSigma tv (s.entry e).tv sigma = false then do
    let (s, pris) ← scheduleAddModify (s.setTv e tv) e pris fuel
    -- invalidate cache
    pure ({ s with earliestWakeup := none }, pris)
  else some (s, pris)

/-- `schedule_remove_entry`. -/
def scheduleRemoveEntry (s : Schedule E) (e : E) (fuel : Nat) : Option (Schedule E) :=
  scheduleRemoveNode { s with earliestWakeup := none } e fuel

/-- `schedule_get_earliest_wakeup`: the cached least entry, found again if the cache is empty;
`*wakeup` is its `tv`. -/
def scheduleGetEarliestWakeup (s : Schedule E) (fuel : Nat) : Option (Schedule E × Option E) := do
  let s ← match s.earliestWakeup with
    | none => (scheduleFindLeast s s.root fuel).map fun r => { s with earliestWakeup := r }
    | some _ => some s
  pure (s, s.earliestWakeup)

end Scheduler

end OpenVpn
