import OpenVpn.Argv

/-! The invariant of `struct argv` over every sequence of `argv_printf`, `argv_printf_cat`,
`argv_parse_cmd` and `argv_insert_head` from `argv_new`, and the token law of
`argv_printf_cat`. A vector that keeps the invariant is `Argv.ofArgs args capacity`: its
arguments, then `NULL` up to its capacity. Each operation maps that layout to the layout with
its arguments appended (`argvAppend_ofArgs`), so the invariant is a consequence of the layout
and never re-proved per operation. The token law follows `argv_printf_arglist` through its three
stages: `argv_prep_format` joins the tokens with GS (`argvPrepFormat_formatOf`), `vsnprintf`
writes the expansions with GS between them, and the split finds one GS more than the tokens
exactly when an expansion holds a GS (`length_splitOn`). -/

namespace OpenVpn

section PowerOf2

/-- `adjust_power_of_2` returns only a value past `u`. -/
theorem adjustPowerOf2Loop_ge {u : Nat} :
    ∀ (fuel ret r : Nat), adjustPowerOf2Loop u ret fuel = some r → u ≤ r
  | 0, _, _, h => by simp [adjustPowerOf2Loop] at h
  | fuel + 1, ret, r, h => by
      simp only [adjustPowerOf2Loop] at h
      split_ifs at h with hlt hpos
      · exact adjustPowerOf2Loop_ge fuel _ r h
      · cases h
        omega

theorem adjustPowerOf2_ge {u r : Nat} (h : adjustPowerOf2 u = some r) : u ≤ r :=
  adjustPowerOf2Loop_ge 64 1 r h

/-- From `ret = 2 ^ j`, the `63 - j` doublings left stay inside 64 bits while `ret < u`. -/
theorem adjustPowerOf2Loop_isSome {u : Nat} (hu : u ≤ 2 ^ 63) :
    ∀ (k j : Nat), j + k = 63 → (adjustPowerOf2Loop u (2 ^ j) (k + 1)).isSome
  | 0, j, hj => by
      obtain rfl : j = 63 := by omega
      simp only [adjustPowerOf2Loop, if_neg (show ¬ 2 ^ 63 < u by omega), Option.isSome_some]
  | k + 1, j, hj => by
      have hshift : (2 ^ j) <<< 1 % 2 ^ 64 = 2 ^ (j + 1) := by
        rw [Nat.shiftLeft_eq, ← pow_succ, Nat.mod_eq_of_lt (Nat.pow_lt_pow_right (by norm_num)
          (by omega))]
      rw [adjustPowerOf2Loop]
      simp only [hshift]
      split_ifs with hlt hpos
      · exact adjustPowerOf2Loop_isSome hu k (j + 1) (by omega)
      · exact absurd (Nat.two_pow_pos _) hpos
      · rfl

/-- Every capacity up to `2 ^ 63` is reached without the `ASSERT` of `adjust_power_of_2`. -/
theorem adjustPowerOf2_some {u : Nat} (hu : u ≤ 2 ^ 63) : ∃ r, adjustPowerOf2 u = some r :=
  Option.isSome_iff_exists.mp (adjustPowerOf2Loop_isSome hu 63 0 rfl)

end PowerOf2

section Layout

/-- The vector with the arguments `args`, then `NULL` up to `capacity`. -/
def Argv.ofArgs (args : List (Option (List UInt8))) (capacity : Nat) : Argv :=
  ⟨capacity, args.length, args ++ List.replicate (capacity - args.length) none⟩

/-- The invariant of a `struct argv`: `capacity` slots, `argc < capacity`, and `argv[i] == NULL`
for every `argc <= i < capacity`, so `argv` is a `NULL`-terminated vector for `execve`. -/
structure Argv.Valid (a : Argv) : Prop where
  length_argv : a.argv.length = a.capacity
  argc_lt : a.argc < a.capacity
  null_after : ∀ i, a.argc ≤ i → i < a.capacity → a.argv[i]? = some none

@[simp] theorem Argv.ofArgs_argc (args : List (Option (List UInt8))) (capacity : Nat) :
    (Argv.ofArgs args capacity).argc = args.length := rfl

@[simp] theorem Argv.ofArgs_capacity (args : List (Option (List UInt8))) (capacity : Nat) :
    (Argv.ofArgs args capacity).capacity = capacity := rfl

@[simp] theorem Argv.args_ofArgs (args : List (Option (List UInt8))) (capacity : Nat) :
    (Argv.ofArgs args capacity).args = args := by
  simp [Argv.ofArgs, Argv.args]

theorem Argv.valid_ofArgs {args : List (Option (List UInt8))} {capacity : Nat}
    (h : args.length < capacity) : (Argv.ofArgs args capacity).Valid where
  length_argv := by simp [Argv.ofArgs]; omega
  argc_lt := h
  null_after i hi hcap := by
    simp only [Argv.ofArgs] at hi hcap ⊢
    rw [List.getElem?_append_right hi, List.getElem?_replicate, if_pos (by omega)]

theorem Argv.Valid.length_args {a : Argv} (h : a.Valid) : a.args.length = a.argc := by
  have := h.argc_lt
  simp only [Argv.args, List.length_take, h.length_argv]
  omega

/-- A vector that keeps the invariant is laid out as its arguments and `NULL`s. -/
theorem Argv.Valid.eq_ofArgs {a : Argv} (h : a.Valid) : a = Argv.ofArgs a.args a.capacity := by
  have hargs : a.args.length = a.argc := h.length_args
  have htail : a.argv.drop a.argc = List.replicate (a.capacity - a.argc) none := by
    apply List.ext_getElem?
    intro i
    rw [List.getElem?_drop, List.getElem?_replicate]
    split_ifs with hi
    · exact h.null_after _ (by omega) (by omega)
    · exact List.getElem?_eq_none (by rw [h.length_argv]; omega)
  obtain ⟨capacity, argc, argv⟩ := a
  simp only [Argv.ofArgs, hargs, Argv.mk.injEq, true_and]
  rw [← htail, Argv.args, List.take_append_drop]

theorem argvNew_eq : argvNew = Argv.ofArgs [] 8 := rfl

/-- `argv_extend` keeps the arguments and takes the larger capacity. -/
theorem argvExtend_ofArgs (args : List (Option (List UInt8))) (capacity newcap : Nat) :
    argvExtend (Argv.ofArgs args capacity) newcap = Argv.ofArgs args (max capacity newcap) := by
  unfold argvExtend
  split_ifs with hcap <;> simp only [Argv.ofArgs_capacity] at hcap
  · rw [Nat.max_eq_right hcap.le]
    simp [Argv.ofArgs]
  · rw [Nat.max_eq_left (by omega)]

/-- `argv_reset` leaves no argument and all slots `NULL`. -/
theorem argvReset_ofArgs {args : List (Option (List UInt8))} {capacity : Nat}
    (h : args.length ≤ capacity) : argvReset (Argv.ofArgs args capacity) = Argv.ofArgs [] capacity := by
  unfold argvReset
  split_ifs with hargc
  · simp only [Argv.ofArgs, Argv.mk.injEq, List.length_nil, Nat.sub_zero, true_and,
      List.drop_left, ← List.replicate_add]
    rw [List.nil_append, Nat.add_sub_cancel' h]
  · simp only [Argv.ofArgs_argc, ne_eq, not_not, List.length_eq_zero_iff] at hargc
    subst hargc
    rfl

/-- `argv_append` on the layout: the string at `argv[argc]`, in a capacity of at least
`argc + 2` that `adjust_power_of_2` gives. -/
theorem argvAppend_ofArgs {args : List (Option (List UInt8))} {capacity : Nat}
    (h : args.length < capacity) (str : Option (List UInt8)) :
    argvAppend (Argv.ofArgs args capacity) str =
      (adjustPowerOf2 (args.length + 2)).map
        fun r => Argv.ofArgs (args ++ [str]) (max capacity r) := by
  rw [argvAppend, argvGrow]
  cases hr : adjustPowerOf2 (args.length + 1 + 1) with
  | none => simp [hr]
  | some r =>
      have hge := adjustPowerOf2_ge hr
      simp only [Argv.ofArgs_argc, Option.map_some, hr, argvExtend_ofArgs, Option.some.injEq]
      simp only [Argv.ofArgs, Argv.mk.injEq, List.length_append, List.length_singleton, true_and]
      rw [List.set_append_right _ _ (by omega), Nat.sub_self, ← Nat.sub_add_cancel
        (show 1 ≤ max capacity r - args.length by omega), List.replicate_succ, List.set_cons_zero]
      simp only [List.append_assoc, List.singleton_append]
      congr 3

/-- The invariant is kept by `argv_append`, and the argument is appended. -/
theorem argvAppend_valid {a b : Argv} (ha : a.Valid) {str : Option (List UInt8)}
    (h : argvAppend a str = some b) : ∃ capacity, b = Argv.ofArgs (a.args ++ [str]) capacity ∧
      (a.args ++ [str]).length < capacity := by
  rw [ha.eq_ofArgs, argvAppend_ofArgs (by rw [ha.length_args]; exact ha.argc_lt)] at h
  obtain ⟨r, hr, rfl⟩ := Option.map_eq_some_iff.mp h
  have hge := adjustPowerOf2_ge hr
  refine ⟨_, rfl, ?_⟩
  simp only [List.length_append, List.length_singleton]
  omega

/-- A vector with some argument slots, and its arguments after `argv_reset`. -/
theorem argvReset_valid {a : Argv} (ha : a.Valid) : argvReset a = Argv.ofArgs [] a.capacity := by
  rw [ha.eq_ofArgs, argvReset_ofArgs (by rw [ha.length_args]; exact ha.argc_lt.le)]
  rfl

/-- `argv_insert_head` writes `argv[0]` of a clone with one `NULL` slot in front. -/
theorem ofArgs_set_head (x y : Option (List UInt8)) (args : List (Option (List UInt8)))
    (capacity : Nat) :
    { Argv.ofArgs (x :: args) capacity with argv := (Argv.ofArgs (x :: args) capacity).argv.set 0 y } =
      Argv.ofArgs (y :: args) capacity := by
  simp [Argv.ofArgs]

end Layout

section Appends

variable {β : Type} (f : β → Option (List UInt8))

/-- Appending each element of `xs` in turn: the arguments end with them, in order. -/
theorem foldlM_argvAppend_valid :
    ∀ (xs : List β) {a b : Argv}, a.Valid →
      xs.foldlM (fun a x => argvAppend a (f x)) a = some b →
      ∃ capacity, b = Argv.ofArgs (a.args ++ xs.map f) capacity ∧
        (a.args ++ xs.map f).length < capacity
  | [], a, b, ha, h => by
      cases h
      exact ⟨a.capacity, by simpa using ha.eq_ofArgs, by simpa [ha.length_args] using ha.argc_lt⟩
  | x :: xs, a, b, ha, h => by
      obtain ⟨a', ha', h⟩ := Option.bind_eq_some_iff.mp h
      obtain ⟨c, rfl, hc⟩ := argvAppend_valid ha ha'
      obtain ⟨c', rfl, hc'⟩ := foldlM_argvAppend_valid xs (Argv.valid_ofArgs hc) h
      refine ⟨c', ?_, ?_⟩ <;> simp only [Argv.args_ofArgs, List.map_cons, List.append_assoc,
        List.singleton_append] at hc' ⊢
      exact hc'

/-- The appends of `xs` all succeed while the vector stays below `2 ^ 63` slots. -/
theorem foldlM_argvAppend_some :
    ∀ (xs : List β) {a : Argv}, a.Valid → a.argc + xs.length + 1 ≤ 2 ^ 63 →
      ∃ b, xs.foldlM (fun a x => argvAppend a (f x)) a = some b
  | [], a, _, _ => ⟨a, rfl⟩
  | x :: xs, a, ha, hroom => by
      simp only [List.length_cons] at hroom
      obtain ⟨r, hr⟩ := adjustPowerOf2_some (u := a.args.length + 2)
        (by rw [ha.length_args]; omega)
      have happ : argvAppend a (f x) = some (Argv.ofArgs (a.args ++ [f x]) (max a.capacity r)) := by
        rw [ha.eq_ofArgs, argvAppend_ofArgs (by rw [ha.length_args]; exact ha.argc_lt), hr,
          Option.map_some, Argv.args_ofArgs, Argv.ofArgs_capacity]
      have hge := adjustPowerOf2_ge hr
      have hlen : (a.args ++ [f x]).length = a.argc + 1 := by
        rw [List.length_append, List.length_singleton, ha.length_args]
      have hv : (Argv.ofArgs (a.args ++ [f x]) (max a.capacity r)).Valid :=
        Argv.valid_ofArgs (by rw [ha.length_args] at hge; omega)
      obtain ⟨b, hb⟩ := foldlM_argvAppend_some xs hv (by rw [Argv.ofArgs_argc, hlen]; omega)
      exact ⟨b, by rw [List.foldlM_cons, happ]; exact hb⟩

end Appends

section Operations

/-- `argv_clone(a, 1)`: one `NULL` slot, then the arguments of `a`, for every `a`. -/
theorem argvNew_valid : argvNew.Valid := by
  rw [argvNew_eq]
  exact Argv.valid_ofArgs (by decide)

theorem argvClone_valid {a r : Argv} (h : argvClone (some a) 1 = some r) :
    ∃ capacity, r = Argv.ofArgs (none :: a.args) capacity ∧ a.args.length + 1 < capacity := by
  rw [argvClone] at h
  obtain ⟨r₀, h₀, h⟩ := Option.bind_eq_some_iff.mp h
  obtain ⟨c₀, rfl, hc₀⟩ := foldlM_argvAppend_valid id [none] argvNew_valid h₀
  obtain ⟨c, rfl, hc⟩ := foldlM_argvAppend_valid id a.args (Argv.valid_ofArgs hc₀) h
  refine ⟨c, ?_, ?_⟩ <;> simp only [argvNew_eq, Argv.args_ofArgs, List.map_id_fun, id_eq,
    List.nil_append, List.singleton_append, List.length_cons] at hc ⊢
  exact hc

/-- `argv_insert_head(a, head)`: `head`, then the arguments of `a`. -/
theorem argvInsertHead_valid {a b : Argv} {head : List UInt8}
    (h : argvInsertHead a head = some b) :
    ∃ capacity, b = Argv.ofArgs (some head :: a.args) capacity ∧ a.args.length + 1 < capacity := by
  obtain ⟨r, hr, rfl⟩ := Option.map_eq_some_iff.mp h
  obtain ⟨c, rfl, hc⟩ := argvClone_valid hr
  exact ⟨c, ofArgs_set_head _ _ _ _, hc⟩

/-- `argv_printf_arglist` keeps the invariant, whether the count of arguments matched or not. -/
theorem argvPrintfArglist_valid {a b : Argv} {ok : Bool} (ha : a.Valid)
    {format : List FormatPiece} (h : argvPrintfArglist a format = some (ok, b)) : b.Valid := by
  unfold argvPrintfArglist at h
  generalize argvPrepFormat argvDelim format a.argc = pf at h
  obtain ⟨argc, fmt⟩ := pf
  dsimp only at h
  obtain ⟨argres, hfold, h⟩ := Option.bind_eq_some_iff.mp h
  obtain ⟨c, rfl, hc⟩ := foldlM_argvAppend_valid some _ ha hfold
  split_ifs at h <;> cases h
  · rw [argvReset_valid (Argv.valid_ofArgs hc)]
    exact Argv.valid_ofArgs (by simp only [List.length_nil, Argv.ofArgs_capacity]; omega)
  · exact Argv.valid_ofArgs hc

/-- `argv_parse_cmd` keeps the invariant. -/
theorem argvParseCmd_valid {a b : Argv} (ha : a.Valid) {cmdstr : List UInt8}
    (h : argvParseCmd a cmdstr = some b) : b.Valid := by
  have hreset : (argvReset a).Valid := by
    rw [argvReset_valid ha]
    exact Argv.valid_ofArgs (by simp only [List.length_nil]; have := ha.argc_lt; omega)
  unfold argvParseCmd at h
  split at h
  · split_ifs at h
    · obtain ⟨c, rfl, hc⟩ := foldlM_argvAppend_valid some _ hreset h
      exact Argv.valid_ofArgs hc
    · obtain ⟨c, rfl, hc⟩ := argvAppend_valid hreset h
      exact Argv.valid_ofArgs hc
  · obtain ⟨c, rfl, hc⟩ := argvAppend_valid hreset h
    exact Argv.valid_ofArgs hc

end Operations

section Run

/-- One call on a vector: `argv_printf`, `argv_printf_cat`, `argv_parse_cmd`, or the vector that
`argv_insert_head` returns in its place. -/
inductive ArgvOp where
  | printf (format : List FormatPiece)
  | printfCat (format : List FormatPiece)
  | parseCmd (cmdstr : List UInt8)
  | insertHead (head : List UInt8)
  deriving DecidableEq, Repr

/-- The vector after the call; `none` when an `ASSERT` ends the process. -/
def ArgvOp.apply (a : Argv) : ArgvOp → Option Argv
  | .printf format => (argvPrintf a format).map Prod.snd
  | .printfCat format => (argvPrintfCat a format).map Prod.snd
  | .parseCmd cmdstr => argvParseCmd a cmdstr
  | .insertHead head => argvInsertHead a head

/-- The calls in turn. -/
def argvRun (a : Argv) (ops : List ArgvOp) : Option Argv := ops.foldlM ArgvOp.apply a

/-- Each call keeps the invariant. -/
theorem ArgvOp.apply_valid {a b : Argv} (ha : a.Valid) (op : ArgvOp) (h : op.apply a = some b) :
    b.Valid := by
  cases op with
  | printf format =>
      obtain ⟨⟨ok, b'⟩, hb, rfl⟩ := Option.map_eq_some_iff.mp h
      have hreset : (argvReset a).Valid := by
        rw [argvReset_valid ha]
        exact Argv.valid_ofArgs (by simp only [List.length_nil]; have := ha.argc_lt; omega)
      exact argvPrintfArglist_valid hreset hb
  | printfCat format =>
      obtain ⟨⟨ok, b'⟩, hb, rfl⟩ := Option.map_eq_some_iff.mp h
      exact argvPrintfArglist_valid ha hb
  | parseCmd cmdstr => exact argvParseCmd_valid ha h
  | insertHead head =>
      obtain ⟨c, rfl, hc⟩ := argvInsertHead_valid h
      exact Argv.valid_ofArgs (by simpa using hc)

/-- Every run of calls from a vector that keeps the invariant ends in one that keeps it. -/
theorem argvRun_valid : ∀ (ops : List ArgvOp) {a b : Argv}, a.Valid → argvRun a ops = some b →
    b.Valid
  | [], a, b, ha, h => by
      cases h
      exact ha
  | op :: ops, a, b, ha, h => by
      obtain ⟨a', ha', h⟩ := Option.bind_eq_some_iff.mp h
      exact argvRun_valid ops (op.apply_valid ha ha') h

end Run

section Lists

variable {α : Type}

theorem intercalate_singleton_cons (x : α) (t : List α) (ts : List (List α)) :
    [x].intercalate (t :: ts) = t ++ ts.flatMap (x :: ·) := by
  induction ts generalizing t with
  | nil => simp
  | cons u ts ih => rw [List.intercalate_cons_cons, ih]; simp

/-- The parts `splitOn` cuts a list into: one more than the separators in it. -/
theorem length_splitOn [BEq α] [LawfulBEq α] (a : α) :
    ∀ xs : List α, (xs.splitOn a).length = xs.count a + 1
  | [] => rfl
  | x :: xs => by
      rw [List.splitOn_cons_eq_if_modifyHead, List.count_cons]
      split <;> simp_all [length_splitOn a xs]

theorem count_intercalate_cons [BEq α] [LawfulBEq α] (x : α) (t : List α) (ts : List (List α)) :
    ([x].intercalate (t :: ts)).count x = ts.length + ((t :: ts).map (List.count x)).sum := by
  rw [intercalate_singleton_cons]
  induction ts generalizing t with
  | nil => simp
  | cons u ts ih =>
      simp only [List.flatMap_cons, List.count_append, List.count_cons_self, List.map_cons,
        List.sum_cons, List.length_cons] at ih ⊢
      have := ih u
      omega

theorem length_intercalate_cons (x : α) (t : List α) (ts : List (List α)) :
    ([x].intercalate (t :: ts)).length = ts.length + ((t :: ts).map List.length).sum := by
  rw [intercalate_singleton_cons]
  induction ts generalizing t with
  | nil => simp
  | cons u ts ih =>
      have := ih u
      simp only [List.flatMap_cons, List.length_append, List.length_cons, List.map_cons,
        List.sum_cons] at this ⊢
      omega

end Lists

section Tokens

/-- A token of a format: pieces, none of them a space. -/
def IsToken (t : List FormatPiece) : Prop := t ≠ [] ∧ ∀ p ∈ t, p.isSpace = false

/-- Tokens, each with the number of spaces after it; only the last may have none. -/
def TokenRuns : List (List FormatPiece × Nat) → Prop
  | [] => True
  | [(t, _)] => IsToken t
  | (t, n) :: p :: rest => IsToken t ∧ 0 < n ∧ TokenRuns (p :: rest)

/-- `n` spaces. -/
def formatSpaces (n : Nat) : List FormatPiece := List.replicate n (.lit 32)

/-- The format with `lead` spaces, then each token and the spaces after it. -/
def formatOf (lead : Nat) (toks : List (List FormatPiece × Nat)) : List FormatPiece :=
  formatSpaces lead ++ toks.flatMap fun p => p.1 ++ formatSpaces p.2

/-- A piece of a C string: no `NUL` byte. -/
def FormatPiece.NoNul : FormatPiece → Prop
  | .lit c => c ≠ 0
  | .conv out => 0 ∉ out

instance (t : List FormatPiece) : Decidable (IsToken t) :=
  inferInstanceAs (Decidable (t ≠ [] ∧ ∀ p ∈ t, p.isSpace = false))

instance TokenRuns.decidable : (toks : List (List FormatPiece × Nat)) → Decidable (TokenRuns toks)
  | [] => inferInstanceAs (Decidable True)
  | [(t, _)] => inferInstanceAs (Decidable (IsToken t))
  | (t, n) :: p :: rest =>
      have := TokenRuns.decidable (p :: rest)
      inferInstanceAs (Decidable (IsToken t ∧ 0 < n ∧ TokenRuns (p :: rest)))

instance FormatPiece.decidableNoNul : (p : FormatPiece) → Decidable p.NoNul
  | .lit c => inferInstanceAs (Decidable (c ≠ 0))
  | .conv out => inferInstanceAs (Decidable (0 ∉ out))

theorem FormatPiece.isSpace_iff {p : FormatPiece} : p.isSpace = true ↔ p = .lit 32 := by
  cases p <;> simp [FormatPiece.isSpace]

theorem TokenRuns.head {t : List FormatPiece} {n : Nat} {rest : List (List FormatPiece × Nat)}
    (h : TokenRuns ((t, n) :: rest)) : IsToken t := by
  cases rest with
  | nil => exact h
  | cons p rest => exact h.1

theorem TokenRuns.tail {t : List FormatPiece} {n : Nat} {rest : List (List FormatPiece × Nat)}
    (h : TokenRuns ((t, n) :: rest)) : TokenRuns rest ∧ (rest ≠ [] → 0 < n) := by
  cases rest with
  | nil => exact ⟨trivial, fun h => absurd rfl h⟩
  | cons p rest => exact ⟨h.2.2, fun _ => h.2.1⟩

/-- A piece that is not a space joins the first token. -/
theorem TokenRuns.cons_piece {x : FormatPiece} (hx : x.isSpace = false) {t : List FormatPiece}
    {n : Nat} {rest : List (List FormatPiece × Nat)} (h : TokenRuns ((t, n) :: rest)) :
    TokenRuns ((x :: t, n) :: rest) := by
  have ht : IsToken (x :: t) :=
    ⟨List.cons_ne_nil _ _, fun p hp => by
      rcases List.mem_cons.mp hp with rfl | hp
      · exact hx
      · exact h.head.2 p hp⟩
  cases rest with
  | nil => exact ht
  | cons p rest => exact ⟨ht, h.2.1, h.2.2⟩

/-- Every format is laid out as runs of spaces and tokens. -/
theorem exists_formatOf : ∀ format : List FormatPiece,
    ∃ lead toks, TokenRuns toks ∧ format = formatOf lead toks
  | [] => ⟨0, [], trivial, rfl⟩
  | x :: rest => by
      obtain ⟨lead, toks, hruns, rfl⟩ := exists_formatOf rest
      cases hx : x.isSpace
      · cases lead with
        | zero =>
            cases toks with
            | nil => exact ⟨0, [([x], 0)], ⟨List.cons_ne_nil _ _, by simpa using hx⟩, rfl⟩
            | cons p toks =>
                -- `x` joins the first token
                exact ⟨0, (x :: p.1, p.2) :: toks, hruns.cons_piece hx,
                  by simp [formatOf, formatSpaces]⟩
        | succ lead =>
            -- `x` is a token of its own before the leading spaces
            have hx' : IsToken [x] := ⟨List.cons_ne_nil _ _, by simpa using hx⟩
            refine ⟨0, ([x], lead + 1) :: toks, ?_, by simp [formatOf, formatSpaces]⟩
            cases toks with
            | nil => exact hx'
            | cons p toks => exact ⟨hx', Nat.succ_pos _, hruns⟩
      · refine ⟨lead + 1, toks, hruns, ?_⟩
        rw [FormatPiece.isSpace_iff.mp hx]
        simp [formatOf, formatSpaces, List.replicate_succ]

variable (d : UInt8)

theorem foldl_argvPrepStep_spaces (n : Nat) (b : Bool) (c : Nat) (f : List FormatPiece) :
    (formatSpaces n).foldl (argvPrepStep d) (b, c, f) = (if n = 0 then b else false, c, f) := by
  induction n generalizing b with
  | zero => rfl
  | succ n ih =>
      rw [formatSpaces, List.replicate_succ, List.foldl_cons, ← formatSpaces]
      simp only [argvPrepStep, FormatPiece.isSpace, decide_true, if_true, ih]
      simp

theorem foldl_argvPrepStep_inToken {t : List FormatPiece} (ht : ∀ p ∈ t, p.isSpace = false)
    (c : Nat) (f : List FormatPiece) :
    t.foldl (argvPrepStep d) (true, c, f) = (true, c, f ++ t) := by
  induction t generalizing f with
  | nil => simp
  | cons x t ih =>
      rw [List.foldl_cons]
      simp only [argvPrepStep, ht x List.mem_cons_self, Bool.false_eq_true, if_false,
        Bool.not_true]
      rw [ih (fun p hp => ht p (List.mem_cons_of_mem _ hp))]
      simp

/-- A token from outside a token: one more token, after a delimiter unless it is the first. -/
theorem foldl_argvPrepStep_token {t : List FormatPiece} (ht : IsToken t) (c : Nat)
    (f : List FormatPiece) :
    t.foldl (argvPrepStep d) (false, c, f) =
      (true, c + 1, (if f ≠ [] then f ++ [.lit d] else f) ++ t) := by
  obtain ⟨x, t', rfl⟩ := List.exists_cons_of_ne_nil ht.1
  rw [List.foldl_cons]
  simp only [argvPrepStep, ht.2 x List.mem_cons_self, Bool.false_eq_true, if_false, Bool.not_false,
    if_true]
  rw [foldl_argvPrepStep_inToken d (fun p hp => ht.2 p (List.mem_cons_of_mem _ hp))]
  simp

/-- The tokens after the first: each one after a delimiter. -/
theorem foldl_argvPrepStep_runs : ∀ (toks : List (List FormatPiece × Nat)), TokenRuns toks →
    ∀ (c : Nat) (f : List FormatPiece), f ≠ [] →
    ∃ b, (toks.flatMap fun p => p.1 ++ formatSpaces p.2).foldl (argvPrepStep d) (false, c, f) =
      (b, c + toks.length, f ++ toks.flatMap fun p => .lit d :: p.1)
  | [], _, c, f, _ => ⟨false, by simp⟩
  | (t, n) :: rest, hruns, c, f, hf => by
      obtain ⟨hrest, hn⟩ := hruns.tail
      rw [List.flatMap_cons, List.foldl_append, List.foldl_append,
        foldl_argvPrepStep_token d hruns.head, if_pos hf, foldl_argvPrepStep_spaces]
      cases rest with
      | nil => exact ⟨if n = 0 then true else false, by simp⟩
      | cons p rest =>
          rw [if_neg (by have := hn (List.cons_ne_nil _ _); omega)]
          obtain ⟨b, hb⟩ := foldl_argvPrepStep_runs (p :: rest) hrest (c + 1)
            (f ++ [.lit d] ++ t) (by simp)
          refine ⟨b, ?_⟩
          rw [hb]
          simp only [List.length_cons, List.flatMap_cons, List.append_assoc,
            List.cons_append, Prod.mk.injEq, true_and]
          exact ⟨by omega, by simp⟩

/-- `argv_prep_format` counts the tokens and joins them with the delimiter. -/
theorem argvPrepFormat_formatOf {toks : List (List FormatPiece × Nat)} (hruns : TokenRuns toks)
    (lead c : Nat) :
    argvPrepFormat d (formatOf lead toks) c =
      (c + toks.length, [.lit d].intercalate (toks.map Prod.fst)) := by
  unfold argvPrepFormat formatOf
  rw [List.foldl_append, foldl_argvPrepStep_spaces]
  cases toks with
  | nil => simp
  | cons tn rest =>
      obtain ⟨t, n⟩ := tn
      obtain ⟨hrest, hn⟩ := hruns.tail
      rw [List.flatMap_cons, List.foldl_append, List.foldl_append, ite_self,
        foldl_argvPrepStep_token d hruns.head, foldl_argvPrepStep_spaces]
      cases rest with
      | nil => simp
      | cons p rest =>
          rw [if_neg (by have := hn (List.cons_ne_nil _ _); omega)]
          simp only [ne_eq, not_true_eq_false, if_false, List.nil_append]
          obtain ⟨b, hb⟩ := foldl_argvPrepStep_runs d (p :: rest) hrest (c + 1) t hruns.head.1
          rw [hb, List.map_cons, intercalate_singleton_cons, List.flatMap_map]
          simp only [List.length_cons, Prod.mk.injEq, and_true]
          omega

/-- All runs of spaces but the last are non-empty. -/
theorem TokenRuns.length_le : ∀ {toks : List (List FormatPiece × Nat)}, TokenRuns toks →
    toks.length ≤ (toks.map Prod.snd).sum + 1
  | [], _ => by simp
  | (t, n) :: rest, h => by
      obtain ⟨hrest, hn⟩ := h.tail
      have ih := hrest.length_le
      cases rest with
      | nil => simp
      | cons p rest =>
          have := hn (List.cons_ne_nil _ _)
          simp only [List.length_cons, List.map_cons, List.sum_cons] at ih ⊢
          omega

end Tokens

section PrintfCat

@[simp] theorem formatOutput_nil : formatOutput [] = [] := rfl

@[simp] theorem formatOutput_append (l l' : List FormatPiece) :
    formatOutput (l ++ l') = formatOutput l ++ formatOutput l' := List.flatMap_append

@[simp] theorem formatOutput_lit_cons (c : UInt8) (l : List FormatPiece) :
    formatOutput (.lit c :: l) = c :: formatOutput l := rfl

/-- `vsnprintf` writes the expansions of the tokens with the delimiter between them. -/
theorem formatOutput_intercalate (d : UInt8) (t : List FormatPiece) (ts : List (List FormatPiece)) :
    formatOutput ([.lit d].intercalate (t :: ts)) =
      [d].intercalate (formatOutput t :: ts.map formatOutput) := by
  rw [intercalate_singleton_cons, intercalate_singleton_cons]
  induction ts generalizing t with
  | nil => simp
  | cons u ts ih =>
      have := ih u
      simp only [List.flatMap_cons, formatOutput_append, formatOutput_lit_cons, List.map_cons,
        List.cons_append] at this ⊢
      rw [this]

theorem length_formatOutput_formatOf (lead : Nat) (toks : List (List FormatPiece × Nat)) :
    (formatOutput (formatOf lead toks)).length =
      lead + (toks.map fun p => (formatOutput p.1).length + p.2).sum := by
  have hsp : ∀ n, (formatOutput (formatSpaces n)).length = n := by
    intro n
    induction n with
    | zero => rfl
    | succ n ih =>
        simp only [formatSpaces, List.replicate_succ, formatOutput_lit_cons, List.length_cons] at ih ⊢
        omega
  induction toks with
  | nil => simp [formatOf, hsp]
  | cons p toks ih =>
      simp only [formatOf, formatOutput_append, List.length_append, hsp, List.flatMap_cons,
        List.map_cons, List.sum_cons] at ih ⊢
      omega

theorem zero_not_mem_formatOutput {l : List FormatPiece} (h : ∀ p ∈ l, p.NoNul) :
    (0 : UInt8) ∉ formatOutput l := by
  simp only [formatOutput, List.mem_flatMap, not_exists, not_and]
  intro p hp
  have := h p hp
  cases p <;> simpa [FormatPiece.NoNul, eq_comm] using this

theorem zero_not_mem_intercalate {d : UInt8} (hd : d ≠ 0) {e : List UInt8} {es : List (List UInt8)}
    (h : ∀ x ∈ e :: es, (0 : UInt8) ∉ x) : (0 : UInt8) ∉ [d].intercalate (e :: es) := by
  rw [intercalate_singleton_cons]
  simp only [List.mem_append, List.mem_flatMap, List.mem_cons, not_or, not_exists, not_and]
  refine ⟨h e List.mem_cons_self, fun x hx => ⟨Ne.symm hd, h x (List.mem_cons_of_mem _ hx)⟩⟩

/-- The token law of `argv_printf_cat`: for a format of `k ≥ 1` tokens, the call succeeds while
the vector fits in `2 ^ 63` slots; it appends exactly the `k` expansions, in order, when none
of them holds a GS, and otherwise returns `false` with no argument left. -/
theorem argvPrintfCat_formatOf {a : Argv} (ha : a.Valid) {lead : Nat}
    {toks : List (List FormatPiece × Nat)} (hruns : TokenRuns toks) (hk : toks ≠ [])
    (hnul : ∀ p ∈ formatOf lead toks, p.NoNul)
    (hroom : a.argc + (formatOutput (formatOf lead toks)).length + 2 ≤ 2 ^ 63) :
    ∃ capacity, a.argc + toks.length < capacity ∧
      argvPrintfCat a (formatOf lead toks) = some
        (if ∀ t ∈ toks, argvDelim ∉ formatOutput t.1 then
          (true, Argv.ofArgs (a.args ++ toks.map fun t => some (formatOutput t.1)) capacity)
        else (false, Argv.ofArgs [] capacity)) := by
  obtain ⟨⟨t, n⟩, rest, rfl⟩ := List.exists_cons_of_ne_nil hk
  -- the expansions of the tokens, and the string vsnprintf writes
  set es := ((t, n) :: rest).map fun p => formatOutput p.1 with hes
  have hbuf : formatOutput ([.lit argvDelim].intercalate (((t, n) :: rest).map Prod.fst)) =
      [argvDelim].intercalate es := by
    rw [List.map_cons, formatOutput_intercalate, hes, List.map_cons, List.map_map]
    rfl
  have hnul' : ∀ x ∈ es, (0 : UInt8) ∉ x := by
    intro x hx
    obtain ⟨p, hp, rfl⟩ := List.mem_map.mp hx
    exact zero_not_mem_formatOutput fun q hq => hnul q (by
      simp only [formatOf, List.mem_append, List.mem_flatMap]
      exact .inr ⟨p, hp, .inl hq⟩)
  have hsplit : argvSplit argvDelim ([argvDelim].intercalate es) =
      ([argvDelim].intercalate es).splitOn argvDelim := by
    rw [argvSplit, List.takeWhile_eq_self_iff.mpr]
    intro x hx
    have := zero_not_mem_intercalate (d := argvDelim) (by decide) hnul'

    simpa using fun h : x = 0 => this (h ▸ hx)
  -- the parts of the split, one more than the delimiters in the string
  set parts := ([argvDelim].intercalate es).splitOn argvDelim with hparts
  have hlen : parts.length = rest.length + (es.map (List.count argvDelim)).sum + 1 := by
    rw [hparts, length_splitOn, hes, List.map_cons, count_intercalate_cons]
    simp
  have hroom' : a.argc + parts.length + 1 ≤ 2 ^ 63 := by
    have h₁ : parts.length ≤ ([argvDelim].intercalate es).length + 1 := by
      rw [hparts, length_splitOn]
      exact Nat.succ_le_succ (List.count_le_length)
    -- the GS between two tokens stands for a run of at least one space
    have h₂ : ([argvDelim].intercalate es).length = rest.length + (formatOutput t).length +
        (rest.map fun p => (formatOutput p.1).length).sum := by
      rw [hes, List.map_cons, length_intercalate_cons]
      simp only [List.length_map, List.map_cons, List.sum_cons, List.map_map, Function.comp_def]
      omega
    have h₃ : (formatOutput (formatOf lead ((t, n) :: rest))).length = lead +
        ((formatOutput t).length + n) + ((rest.map fun p => (formatOutput p.1).length).sum +
          (rest.map Prod.snd).sum) := by
      rw [length_formatOutput_formatOf, List.map_cons, List.sum_cons, List.sum_map_add]
      dsimp only
      omega
    have h₄ : rest.length ≤ (rest.map Prod.snd).sum + n := by
      have := hruns.length_le
      simp only [List.length_cons, List.map_cons, List.sum_cons] at this
      omega
    omega
  obtain ⟨b, hfold⟩ := foldlM_argvAppend_some some parts ha hroom'
  obtain ⟨c, rfl, hc⟩ := foldlM_argvAppend_valid some parts ha hfold
  have hc' : a.argc + parts.length < c := by
    simpa [ha.length_args] using hc
  have hprep := argvPrepFormat_formatOf argvDelim hruns lead a.argc
  unfold argvPrintfCat argvPrintfArglist
  rw [hprep]
  dsimp only
  rw [hbuf, hsplit, hfold]
  simp only [Option.bind_eq_bind, Option.bind_some, Argv.ofArgs_argc, List.length_append,
    List.length_map, ha.length_args]
  by_cases hgs : ∀ p ∈ (t, n) :: rest, argvDelim ∉ formatOutput p.1
  · -- no expansion holds a GS: the split gives back the expansions
    have hes_parts : parts = es := by
      rw [hparts]
      exact List.splitOn_intercalate _ (fun x hx => by
        obtain ⟨p, hp, rfl⟩ := List.mem_map.mp hx
        exact hgs p hp) (by simp [hes])
    refine ⟨c, by rw [hes_parts] at hc'; simpa [hes] using hc', ?_⟩
    rw [if_pos hgs, if_neg (show ¬ a.argc + parts.length ≠ a.argc + ((t, n) :: rest).length by
      rw [hes_parts, hes]; simp), hes_parts, hes, List.map_map]
    rfl
  · -- a GS in an expansion: one part more than the tokens
    obtain ⟨p, hp, hdp⟩ : ∃ p ∈ (t, n) :: rest, argvDelim ∈ formatOutput p.1 := by
      simpa only [not_forall, not_not, exists_prop] using hgs
    have hcount : 0 < (es.map (List.count argvDelim)).sum := by
      have hmem : List.count argvDelim (formatOutput p.1) ∈ es.map (List.count argvDelim) :=
        List.mem_map.mpr ⟨_, List.mem_map.mpr ⟨p, hp, rfl⟩, rfl⟩
      have := List.le_sum_of_mem hmem
      have := List.count_pos_iff.mpr hdp
      omega
    refine ⟨c, by simp only [List.length_cons]; omega, ?_⟩
    rw [if_neg hgs, if_pos (show a.argc + parts.length ≠ a.argc + ((t, n) :: rest).length by
      simp only [List.length_cons]; omega),
      argvReset_ofArgs hc.le]
    rfl

/-- A GS in the value of `%s` fails the call and leaves no argument. -/
example : (argvPrintfCat argvNew [.lit 97, .lit 32, .conv [98, 0x1D, 99]]).map
    (fun r => (r.1, r.2.argc)) = some (false, 0) := by decide

end PrintfCat

section TokenLaw

/-- Every vector that `argv_new` and any sequence of `argv_printf`, `argv_printf_cat`,
`argv_parse_cmd` and `argv_insert_head` produce is `NULL`-terminated with `argc < capacity`; every
format is runs of spaces and tokens; and `argv_printf_cat` on a vector with the invariant and a
format of `k ≥ 1` tokens appends the `k` expansions in order exactly when none holds a GS, and
otherwise returns `false` with `argc = 0`. -/
theorem argv_null_terminated_token_law :
    (∀ (ops : List ArgvOp) (a : Argv), argvRun argvNew ops = some a → a.Valid) ∧
    (∀ format : List FormatPiece, ∃ lead toks, TokenRuns toks ∧ format = formatOf lead toks) ∧
    (∀ (a : Argv) (lead : Nat) (toks : List (List FormatPiece × Nat)), a.Valid →
      TokenRuns toks → toks ≠ [] → (∀ p ∈ formatOf lead toks, p.NoNul) →
      a.argc + (formatOutput (formatOf lead toks)).length + 2 ≤ 2 ^ 63 →
      ∃ capacity, a.argc + toks.length < capacity ∧
        argvPrintfCat a (formatOf lead toks) = some
          (if ∀ t ∈ toks, argvDelim ∉ formatOutput t.1 then
            (true, Argv.ofArgs (a.args ++ toks.map fun t => some (formatOutput t.1)) capacity)
          else (false, Argv.ofArgs [] capacity))) := by
  refine ⟨?_, exists_formatOf, ?_⟩
  · intro ops a h
    exact argvRun_valid ops argvNew_valid h
  · intro a lead toks ha hruns hk hnul hroom
    exact argvPrintfCat_formatOf ha hruns hk hnul hroom

/-- `argv_printf_cat(a, "a %s", "b c")` on a new vector: the space in the value stays inside
the second argument. -/
theorem argv_null_terminated_token_law_space_in_value :
    ∃ capacity, argvNew.argc + 2 < capacity ∧
      argvPrintfCat argvNew (formatOf 0 [([.lit 97], 1), ([.conv [98, 32, 99]], 0)]) = some
        (if ∀ t ∈ [([FormatPiece.lit 97], 1), ([.conv [98, 32, 99]], 0)],
            argvDelim ∉ formatOutput t.1 then
          (true, Argv.ofArgs (argvNew.args ++
            [([FormatPiece.lit 97], 1), ([.conv [98, 32, 99]], 0)].map
              fun t => some (formatOutput t.1)) capacity)
        else (false, Argv.ofArgs [] capacity)) :=
  argv_null_terminated_token_law.2.2 argvNew 0 [([.lit 97], 1), ([.conv [98, 32, 99]], 0)]
    argvNew_valid (by decide) (by simp) (by decide) (by decide)

end TokenLaw

end OpenVpn
