import OpenVpn.AuthToken

/-! `sanitize_control_message` of `misc.c`, which takes the secrets out of a control message
before it is logged. The loop copies the message byte by byte; `SESS_ID_`, `echo ` and, below
`D_SHOW_KEYS`, `auth-token ` start a redaction that lets the next 7, 4 or 10 bytes through, and a
',' ends it. The message is the list of bytes from `src`; the loop stops at its NUL, or at the end
of the list. `showKeys` is `check_debug_level(D_SHOW_KEYS)`.

What the loop keeps is stated through the keyword occurrence still open at each byte
(`sanitizeOpen`): the latest one with no ',' since. A byte is kept when no occurrence is open at it,
or when it lies in the part the open one lets through (`sanitizeKeeps`). -/

namespace OpenVpn

/-- `"SESS_ID_"`. -/
def sanitizeSessId : List UInt8 :=
  ['S', 'E', 'S', 'S', '_', 'I', 'D', '_'].map fun c => UInt8.ofNat c.toNat

/-- `"echo "`. -/
def sanitizeEcho : List UInt8 := ['e', 'c', 'h', 'o', ' '].map fun c => UInt8.ofNat c.toNat

/-- `"auth-token "`. -/
def sanitizeAuthToken : List UInt8 :=
  ['a', 'u', 't', 'h', '-', 't', 'o', 'k', 'e', 'n', ' '].map fun c => UInt8.ofNat c.toNat

/-- `','`. -/
def sanitizeComma : UInt8 := UInt8.ofNat ','.toNat

/-- The keyword checks of the loop body at `src`, in their order: the number of bytes the
redaction lets through, or `none` when no keyword starts at `src`. -/
def sanitizeKeyword (showKeys : Bool) (src : List UInt8) : Option Nat :=
  if src.head? = some (UInt8.ofNat 'S'.toNat) ∧ src.take 8 = sanitizeSessId then some 7
  else if src.head? = some (UInt8.ofNat 'e'.toNat) ∧ src.take 5 = sanitizeEcho then some 4
  else if !showKeys ∧ src.head? = some (UInt8.ofNat 'a'.toNat) ∧ src.take 11 = sanitizeAuthToken then
    some 10
  else none

/-- The state `redact`, `skip` after the two checks of the loop body at `src`, whose first byte
is `c`. -/
def sanitizeNext (showKeys redact : Bool) (skip : Nat) (src : List UInt8) (c : UInt8) : Bool × Nat :=
  let st := match sanitizeKeyword showKeys src with
    | some k => (true, k)
    | none => (redact, skip)
  -- the end of a redacted item
  if c = sanitizeComma then (false, 0) else st

/-- The loop of `sanitize_control_message` from `src` in the state `redact`, `skip`: the bytes it
copies to `dest`. -/
def sanitizeLoop (showKeys : Bool) (redact : Bool) (skip : Nat) : List UInt8 → List UInt8
  | [] => []
  | c :: rest =>
      if c = 0 then []
      else
        let st := sanitizeNext showKeys redact skip (c :: rest) c
        if st.1 then
          if st.2 > 0 then c :: sanitizeLoop showKeys st.1 (st.2 - 1) rest
          else sanitizeLoop showKeys st.1 st.2 rest
        else c :: sanitizeLoop showKeys st.1 st.2 rest

/-- `sanitize_control_message(src, gc)`: the bytes it writes before the NUL. -/
def sanitizeControlMessage (showKeys : Bool) (src : List UInt8) : List UInt8 :=
  sanitizeLoop showKeys false 0 src

/-! ## Which bytes are kept -/

/-- A keyword starts `src`, and its redaction lets `k` bytes through. -/
def StartsKeyword (showKeys : Bool) (src : List UInt8) (k : Nat) : Prop :=
  (sanitizeSessId <+: src ∧ k = 7) ∨ (sanitizeEcho <+: src ∧ k = 4) ∨
    (showKeys = false ∧ sanitizeAuthToken <+: src ∧ k = 10)

/-- Byte `j` of `m` lies in a secret span: after the part a keyword occurrence lets through,
with no ',' from the occurrence on. -/
def InSecretSpan (showKeys : Bool) (m : List UInt8) (j : Nat) : Prop :=
  ∃ p k, StartsKeyword showKeys (m.drop p) k ∧ p + k ≤ j ∧
    ∀ q, p ≤ q → q ≤ j → m[q]? ≠ some sanitizeComma

/-- Byte `j` of `m` lies in the part a keyword occurrence lets through. -/
def InKeptPrefix (showKeys : Bool) (m : List UInt8) (j : Nat) : Prop :=
  ∃ p k, StartsKeyword showKeys (m.drop p) k ∧ p ≤ j ∧ j < p + k

/-- The keyword occurrence open after the bytes of `m` before `i`, the latest one with no ','
since, with the number of bytes it lets through. -/
def sanitizeOpen (showKeys : Bool) (m : List UInt8) : Nat → Option (Nat × Nat)
  | 0 => none
  | i + 1 =>
      let o := match sanitizeKeyword showKeys (m.drop i) with
        | some k => some (i, k)
        | none => sanitizeOpen showKeys m i
      if m[i]? = some sanitizeComma then none else o

/-- Whether the loop keeps byte `j` of `m`: no occurrence is open at it, or it lies in the part
the open one lets through. -/
def sanitizeKeeps (showKeys : Bool) (m : List UInt8) (j : Nat) : Bool :=
  match sanitizeOpen showKeys m (j + 1) with
  | none => true
  | some (p, k) => decide (j < p + k)

/-- The state `redact`, `skip` of the loop before byte `i` of `m`. -/
def sanitizeState (showKeys : Bool) (m : List UInt8) (i : Nat) : Bool × Nat :=
  match sanitizeOpen showKeys m i with
  | none => (false, 0)
  | some (p, k) => (true, p + k - i)

/-! ## The keyword checks -/

/-- A keyword that is a prefix of `src` gives `src` its first byte. -/
theorem head?_eq_of_isPrefix {kw src : List UInt8} {x : UInt8} (h : kw <+: src)
    (hx : kw.head? = some x) : src.head? = some x := by
  obtain ⟨t, rfl⟩ := h
  cases kw with
  | nil => simp at hx
  | cons a kw => simpa using hx

/-- The two halves of a keyword check, its first byte and `strncmp`, say that the keyword is a
prefix. -/
theorem head?_take_iff_isPrefix (kw : List UInt8) {src : List UInt8} {x : UInt8}
    (hx : kw.head? = some x) :
    (src.head? = some x ∧ src.take kw.length = kw) ↔ kw <+: src := by
  rw [List.prefix_iff_eq_take]
  constructor
  · rintro ⟨-, h⟩
    exact h.symm
  · intro h
    exact ⟨head?_eq_of_isPrefix (List.prefix_iff_eq_take.mpr h) hx, h.symm⟩

/-- Two keywords with different first bytes do not both start `src`. -/
theorem not_isPrefix_of_head?_ne {kw₁ kw₂ src : List UInt8} {x y : UInt8}
    (hx : kw₁.head? = some x) (hy : kw₂.head? = some y) (hxy : x ≠ y) (h₁ : kw₁ <+: src) :
    ¬kw₂ <+: src := fun h₂ =>
  hxy (Option.some_inj.mp ((head?_eq_of_isPrefix h₁ hx).symm.trans (head?_eq_of_isPrefix h₂ hy)))

/-- The keyword checks find exactly the keyword that starts `src`; the three keywords start with
different bytes, so at most one does. -/
theorem sanitizeKeyword_eq_some_iff {showKeys : Bool} {src : List UInt8} {k : Nat} :
    sanitizeKeyword showKeys src = some k ↔ StartsKeyword showKeys src k := by
  have hS : (src.head? = some (UInt8.ofNat 'S'.toNat) ∧ src.take 8 = sanitizeSessId) ↔
      sanitizeSessId <+: src := head?_take_iff_isPrefix sanitizeSessId rfl
  have hE : (src.head? = some (UInt8.ofNat 'e'.toNat) ∧ src.take 5 = sanitizeEcho) ↔
      sanitizeEcho <+: src := head?_take_iff_isPrefix sanitizeEcho rfl
  have hA : (src.head? = some (UInt8.ofNat 'a'.toNat) ∧ src.take 11 = sanitizeAuthToken) ↔
      sanitizeAuthToken <+: src := head?_take_iff_isPrefix sanitizeAuthToken rfl
  have hSE : sanitizeSessId <+: src → ¬sanitizeEcho <+: src :=
    not_isPrefix_of_head?_ne rfl rfl (by decide)
  have hSA : sanitizeSessId <+: src → ¬sanitizeAuthToken <+: src :=
    not_isPrefix_of_head?_ne rfl rfl (by decide)
  have hEA : sanitizeEcho <+: src → ¬sanitizeAuthToken <+: src :=
    not_isPrefix_of_head?_ne rfl rfl (by decide)
  unfold sanitizeKeyword StartsKeyword
  simp only [hS, hE, hA, Bool.not_eq_eq_eq_not, Bool.not_true]
  split_ifs with h₁ h₂ h₃
  · have := hSE h₁
    have := hSA h₁
    simp_all [eq_comm]
  · have := hEA h₂
    simp_all [eq_comm]
  · simp_all [eq_comm]
  · simp_all

theorem pos_of_sanitizeKeyword {showKeys : Bool} {src : List UInt8} {k : Nat}
    (h : sanitizeKeyword showKeys src = some k) : 0 < k := by
  rcases sanitizeKeyword_eq_some_iff.mp h with ⟨-, rfl⟩ | ⟨-, rfl⟩ | ⟨-, -, rfl⟩ <;> decide

/-! ## The loop against the open occurrence -/

section Loop

variable {showKeys : Bool} {m : List UInt8}

theorem sanitizeOpen_succ (showKeys : Bool) {m : List UInt8} {i : Nat} {c : UInt8}
    (hc : m[i]? = some c) :
    sanitizeOpen showKeys m (i + 1) =
      if c = sanitizeComma then none
      else match sanitizeKeyword showKeys (m.drop i) with
        | some k => some (i, k)
        | none => sanitizeOpen showKeys m i := by
  rw [sanitizeOpen, hc]
  simp only [Option.some.injEq]

/-- One byte of the loop: it is copied exactly when `sanitizeKeeps` keeps it, and the loop goes
on in the state before the next byte. -/
theorem sanitizeLoop_state_cons {i : Nat} {c : UInt8} {rest : List UInt8}
    (hdrop : m.drop i = c :: rest) (hc0 : c ≠ 0) :
    sanitizeLoop showKeys (sanitizeState showKeys m i).1 (sanitizeState showKeys m i).2 (c :: rest) =
      (if sanitizeKeeps showKeys m i then [c] else []) ++
        sanitizeLoop showKeys (sanitizeState showKeys m (i + 1)).1
          (sanitizeState showKeys m (i + 1)).2 rest := by
  have hc : m[i]? = some c := by rw [← List.head?_drop, hdrop]; rfl
  unfold sanitizeKeeps sanitizeState
  rw [sanitizeLoop, if_neg hc0, sanitizeOpen_succ showKeys hc]
  unfold sanitizeNext
  rw [← hdrop]
  by_cases hcomma : c = sanitizeComma
  · -- a ',' ends the redaction, and is copied
    simp [hcomma]
  · rw [if_neg hcomma, if_neg hcomma]
    cases hk : sanitizeKeyword showKeys (m.drop i) with
    | some k =>
        -- a keyword starts a redaction that copies this byte and `k - 1` more
        have hk0 := pos_of_sanitizeKeyword hk
        simp only [hk0, ↓reduceIte, decide_eq_true_eq, Nat.lt_add_right_iff_pos,
          List.singleton_append, List.cons.injEq, true_and]
        congr 1
        omega
    | none =>
        cases ho : sanitizeOpen showKeys m i with
        | none => simp
        | some pk =>
            obtain ⟨p, k⟩ := pk
            by_cases hlt : i < p + k
            · simp only [hlt, decide_true, ↓reduceIte, gt_iff_lt, Nat.sub_pos_iff_lt,
                List.singleton_append, List.cons.injEq, true_and]
              rw [Nat.sub_sub]
            · simp only [hlt, decide_false, Bool.false_eq_true, ↓reduceIte, gt_iff_lt,
                Nat.sub_pos_iff_lt, List.nil_append]
              congr 1
              omega

/-- From byte `i` on, the loop in the state before byte `i` copies the bytes `sanitizeKeeps`
keeps; the induction is over the rest of the message. -/
theorem sanitizeLoop_state_eq : ∀ (l : List UInt8) (i : Nat), m.drop i = l → 0 ∉ l →
    sanitizeLoop showKeys (sanitizeState showKeys m i).1 (sanitizeState showKeys m i).2 l =
      ((l.zipIdx i).filter fun cj => sanitizeKeeps showKeys m cj.2).map Prod.fst
  | [], _, _, _ => by simp [sanitizeLoop]
  | c :: rest, i, hdrop, h0 => by
      have hrest : m.drop (i + 1) = rest := by
        rw [← List.drop_drop, hdrop, List.drop_one, List.tail_cons]
      rw [sanitizeLoop_state_cons hdrop (fun h => h0 (h ▸ List.mem_cons_self)),
        sanitizeLoop_state_eq rest (i + 1) hrest (fun h => h0 (List.mem_cons_of_mem _ h)),
        List.zipIdx_cons, List.filter_cons]
      cases sanitizeKeeps showKeys m i <;> simp

/-- On a message without NUL, `sanitize_control_message` copies exactly the bytes
`sanitizeKeeps` keeps. -/
theorem sanitizeControlMessage_eq_filter (h0 : 0 ∉ m) :
    sanitizeControlMessage showKeys m =
      (m.zipIdx.filter fun cj => sanitizeKeeps showKeys m cj.2).map Prod.fst :=
  sanitizeLoop_state_eq m 0 rfl h0

/-- The loop copies a subsequence of its input. -/
theorem sanitizeLoop_sublist : ∀ (redact : Bool) (skip : Nat) (l : List UInt8),
    (sanitizeLoop showKeys redact skip l).Sublist l
  | _, _, [] => List.Sublist.slnil
  | redact, skip, c :: rest => by
      rw [sanitizeLoop]
      dsimp only
      split_ifs
      · exact List.nil_sublist _
      · exact (sanitizeLoop_sublist _ _ rest).cons_cons c
      · exact (sanitizeLoop_sublist _ _ rest).cons c
      · exact (sanitizeLoop_sublist _ _ rest).cons_cons c

end Loop

/-! ## Secret spans -/

section Spans

variable {showKeys : Bool} {m : List UInt8}

/-- The open occurrence is a keyword occurrence before `i` with no ',' from it on. -/
theorem sanitizeOpen_some : ∀ {i p k : Nat}, sanitizeOpen showKeys m i = some (p, k) →
    p < i ∧ StartsKeyword showKeys (m.drop p) k ∧
      ∀ q, p ≤ q → q < i → m[q]? ≠ some sanitizeComma
  | 0, _, _, h => by simp [sanitizeOpen] at h
  | i + 1, p, k, h => by
      rw [sanitizeOpen] at h
      by_cases hcomma : m[i]? = some sanitizeComma
      · rw [if_pos hcomma] at h
        cases h
      rw [if_neg hcomma] at h
      -- the bytes before `i` are covered by the occurrence open before `i`, or `p = i`
      have hlast : ∀ q, p ≤ q → q < i + 1 → ¬q < i → m[q]? ≠ some sanitizeComma := by
        intro q _ hq₂ hq₃
        rw [show q = i by omega]
        exact hcomma
      cases hkw : sanitizeKeyword showKeys (m.drop i) with
      | some k' =>
          rw [hkw] at h
          obtain ⟨rfl, rfl⟩ := Prod.mk.inj (Option.some.inj h)
          refine ⟨by omega, sanitizeKeyword_eq_some_iff.mp hkw, fun q hq₁ hq₂ => ?_⟩
          exact hlast q hq₁ hq₂ (by omega)
      | none =>
          rw [hkw] at h
          obtain ⟨hp, hstart, hno⟩ := sanitizeOpen_some h
          refine ⟨by omega, hstart, fun q hq₁ hq₂ => ?_⟩
          by_cases hq : q < i
          · exact hno q hq₁ hq
          · exact hlast q hq₁ hq₂ hq

/-- A keyword occurrence before `i` with no ',' from it on leaves an occurrence open before
`i`, at it or after it. -/
theorem sanitizeOpen_of_startsKeyword {p₀ k₀ : Nat} (hkw : StartsKeyword showKeys (m.drop p₀) k₀) :
    ∀ {i : Nat}, p₀ < i → (∀ q, p₀ ≤ q → q < i → m[q]? ≠ some sanitizeComma) →
      ∃ p k, sanitizeOpen showKeys m i = some (p, k) ∧ p₀ ≤ p
  | 0, h, _ => absurd h (Nat.not_lt_zero _)
  | i + 1, hlt, hno => by
      rw [sanitizeOpen, if_neg (hno i (by omega) (by omega))]
      cases hk : sanitizeKeyword showKeys (m.drop i) with
      | some k => exact ⟨i, k, rfl, by omega⟩
      | none =>
          -- no keyword starts at `i`, so the occurrence at `p₀` lies before it
          have hne : p₀ ≠ i := by
            rintro rfl
            rw [sanitizeKeyword_eq_some_iff.mpr hkw] at hk
            cases hk
          exact sanitizeOpen_of_startsKeyword hkw (by omega) fun q hq₁ hq₂ => hno q hq₁ (by omega)

/-- Every byte outside the secret spans is kept. -/
theorem sanitizeKeeps_of_not_inSecretSpan {j : Nat} (h : ¬InSecretSpan showKeys m j) :
    sanitizeKeeps showKeys m j = true := by
  unfold sanitizeKeeps
  cases ho : sanitizeOpen showKeys m (j + 1) with
  | none => rfl
  | some pk =>
      obtain ⟨p, k⟩ := pk
      obtain ⟨-, hstart, hno⟩ := sanitizeOpen_some ho
      -- past the part the open occurrence lets through, byte `j` would lie in its secret span
      have hlt : j < p + k := Nat.lt_of_not_le fun hle =>
        h ⟨p, k, hstart, hle, fun q hq₁ hq₂ => hno q hq₁ (by omega)⟩
      exact decide_eq_true hlt

/-- A byte of a secret span is kept only inside the part of a keyword occurrence that its
redaction lets through. -/
theorem inKeptPrefix_of_sanitizeKeeps {j : Nat} (hspan : InSecretSpan showKeys m j)
    (hkeep : sanitizeKeeps showKeys m j = true) : InKeptPrefix showKeys m j := by
  obtain ⟨p₀, k₀, hstart₀, hle₀, hno₀⟩ := hspan
  -- the occurrence of the span is still open at `j`, so some occurrence is
  obtain ⟨p, k, ho, -⟩ := sanitizeOpen_of_startsKeyword hstart₀ (i := j + 1) (by omega)
    fun q hq₁ hq₂ => hno₀ q hq₁ (by omega)
  obtain ⟨hp, hstart, -⟩ := sanitizeOpen_some ho
  unfold sanitizeKeeps at hkeep
  rw [ho] at hkeep
  exact ⟨p, k, hstart, by omega, of_decide_eq_true hkeep⟩

end Spans

/-! ## What the log shows of a payload -/

section Payload

variable {showKeys : Bool}

/-- The keyword checks read at most eleven bytes. -/
theorem sanitizeKeyword_take (src : List UInt8) :
    sanitizeKeyword showKeys (src.take 11) = sanitizeKeyword showKeys src := by
  unfold sanitizeKeyword
  simp only [List.head?_take, List.take_take]
  rfl

/-- Two lists that agree on their first `n` bytes still do behind a common prefix. -/
theorem take_append_congr {a b b' : List UInt8} {n : Nat} (h : b.take n = b'.take n) :
    (a ++ b).take n = (a ++ b').take n := by
  have hcut : ∀ l : List UInt8, l.take (n - a.length) = (l.take n).take (n - a.length) := by
    intro l
    rw [List.take_take, Nat.min_eq_left (Nat.sub_le n a.length)]
  rw [List.take_append, List.take_append, hcut b, hcut b', h]

/-- The loop over `a` looks at most ten bytes past it: behind `a`, two tails that agree on their
first ten bytes get the same copy of `a` and the same state. -/
theorem sanitizeLoop_append_of_take_eq (showKeys : Bool) (b b' : List UInt8)
    (hb : b.take 10 = b'.take 10) :
    ∀ (a : List UInt8), 0 ∉ a → ∀ (redact : Bool) (skip : Nat), ∃ out redact' skip',
      sanitizeLoop showKeys redact skip (a ++ b) = out ++ sanitizeLoop showKeys redact' skip' b ∧
      sanitizeLoop showKeys redact skip (a ++ b') = out ++ sanitizeLoop showKeys redact' skip' b'
  | [], _, redact, skip => ⟨[], redact, skip, rfl, rfl⟩
  | c :: a, h0, redact, skip => by
      have hc0 : c ≠ 0 := fun h => h0 (h ▸ List.mem_cons_self)
      have ha : 0 ∉ a := fun h => h0 (List.mem_cons_of_mem _ h)
      -- the checks at `c` read `c` and ten bytes more, the same behind `a` in both
      have hkw : sanitizeKeyword showKeys (c :: (a ++ b)) = sanitizeKeyword showKeys (c :: (a ++ b')) := by
        rw [← sanitizeKeyword_take, ← sanitizeKeyword_take (c :: (a ++ b')), List.take_succ_cons,
          List.take_succ_cons, take_append_congr hb]
      have hnext : sanitizeNext showKeys redact skip (c :: (a ++ b)) c =
          sanitizeNext showKeys redact skip (c :: (a ++ b')) c := by
        unfold sanitizeNext
        rw [hkw]
      rw [List.cons_append, List.cons_append, sanitizeLoop, sanitizeLoop, if_neg hc0, if_neg hc0]
      dsimp only
      rw [← hnext]
      generalize sanitizeNext showKeys redact skip (c :: (a ++ b)) c = st
      split_ifs
      · obtain ⟨out, r, s, h₁, h₂⟩ := sanitizeLoop_append_of_take_eq showKeys b b' hb a ha st.1 (st.2 - 1)
        exact ⟨c :: out, r, s, by rw [h₁]; rfl, by rw [h₂]; rfl⟩
      · exact sanitizeLoop_append_of_take_eq showKeys b b' hb a ha st.1 st.2
      · obtain ⟨out, r, s, h₁, h₂⟩ := sanitizeLoop_append_of_take_eq showKeys b b' hb a ha st.1 st.2
        exact ⟨c :: out, r, s, by rw [h₁]; rfl, by rw [h₂]; rfl⟩

/-- `SESS_ID_AT_` starts a redaction whatever the state: the loop copies `SESS_ID` and drops
`_AT_`. -/
theorem sanitizeLoop_sessionIdPrefix (redact : Bool) (skip : Nat) (t : List UInt8) :
    sanitizeLoop showKeys redact skip (sessionIdPrefix ++ t) =
      sessionIdPrefix.take 7 ++ sanitizeLoop showKeys true 0 t := by
  cases showKeys <;> rfl

/-- Inside a redaction past its let-through part, bytes with no ',' and no keyword in them are
dropped. -/
theorem sanitizeLoop_drop_secret (w : List UInt8) : ∀ (x : List UInt8), 0 ∉ x →
    sanitizeComma ∉ x → (∀ i < x.length, sanitizeKeyword showKeys ((x ++ w).drop i) = none) →
      sanitizeLoop showKeys true 0 (x ++ w) = sanitizeLoop showKeys true 0 w
  | [], _, _, _ => rfl
  | c :: x, h0, hcomma, hkw => by
      have hc0 : c ≠ 0 := fun h => h0 (h ▸ List.mem_cons_self)
      have hcc : c ≠ sanitizeComma := fun h => hcomma (h ▸ List.mem_cons_self)
      have hk : sanitizeKeyword showKeys (c :: (x ++ w)) = none := hkw 0 (by simp)
      rw [List.cons_append, sanitizeLoop, if_neg hc0]
      dsimp only
      unfold sanitizeNext
      rw [hk, if_neg hcc]
      exact sanitizeLoop_drop_secret w x (fun h => h0 (List.mem_cons_of_mem _ h))
        (fun h => hcomma (List.mem_cons_of_mem _ h)) fun i hi => by
          simpa using hkw (i + 1) (by simp; omega)

/-- A keyword has no ',' in it, so behind a list that ends the message or goes on with a ',' it
is a prefix exactly when it is one of the list. -/
theorem prefix_append_comma_iff {kw a w : List UInt8} (hkw : sanitizeComma ∉ kw)
    (hw : w = [] ∨ w.head? = some sanitizeComma) : kw <+: a ++ w ↔ kw <+: a := by
  refine ⟨fun h => ?_, fun h => h.trans (List.prefix_append a w)⟩
  rw [List.prefix_iff_eq_take] at h ⊢
  by_cases hle : kw.length ≤ a.length
  · rwa [List.take_append_of_le_length hle] at h
  · -- a keyword longer than `a` reads the byte after it
    rw [List.take_append, List.take_of_length_le (by omega)] at h
    rcases hw with rfl | hw
    · rw [List.take_nil, List.append_nil] at h
      exact absurd (congrArg List.length h) (by omega)
    · obtain ⟨w', rfl⟩ : ∃ w', w = sanitizeComma :: w' := by
        cases w with
        | nil => cases hw
        | cons x w' => exact ⟨w', by simpa using hw⟩
      obtain ⟨n, hn⟩ : ∃ n, kw.length - a.length = n + 1 := ⟨_, (Nat.succ_pred_eq_of_pos (by omega)).symm⟩
      rw [hn, List.take_succ_cons] at h
      exact absurd (h ▸ List.mem_append_right a List.mem_cons_self) hkw

/-- Behind a list that ends the message or goes on with a ',', the keyword checks see only the
list. -/
theorem sanitizeKeyword_append_comma {a w : List UInt8}
    (hw : w = [] ∨ w.head? = some sanitizeComma) :
    sanitizeKeyword showKeys (a ++ w) = sanitizeKeyword showKeys a := by
  apply Option.ext
  intro k
  rw [sanitizeKeyword_eq_some_iff, sanitizeKeyword_eq_some_iff]
  unfold StartsKeyword
  rw [prefix_append_comma_iff (by decide) hw, prefix_append_comma_iff (by decide) hw,
    prefix_append_comma_iff (by decide) hw]

/-- The bytes of an auth-token payload do not reach the log: behind `SESS_ID_AT_`, a payload with
no NUL, no ',' and no keyword in it, which ends the message or is followed by a ',', gives the
output any other such payload gives. -/
theorem sanitizeControlMessage_payload_eq {u x x' w : List UInt8} (hu : 0 ∉ u) (hx : 0 ∉ x)
    (hx' : 0 ∉ x') (hcx : sanitizeComma ∉ x) (hcx' : sanitizeComma ∉ x')
    (hkx : ∀ i < x.length, sanitizeKeyword showKeys (x.drop i) = none)
    (hkx' : ∀ i < x'.length, sanitizeKeyword showKeys (x'.drop i) = none)
    (hw : w = [] ∨ w.head? = some sanitizeComma) :
    sanitizeControlMessage showKeys (u ++ sessionIdPrefix ++ x ++ w) =
      sanitizeControlMessage showKeys (u ++ sessionIdPrefix ++ x' ++ w) := by
  -- the loop over `u` reads no further than `SESS_ID_AT_`
  have hb : (sessionIdPrefix ++ (x ++ w)).take 10 = (sessionIdPrefix ++ (x' ++ w)).take 10 := by
    rw [List.take_append_of_le_length (by decide), List.take_append_of_le_length (by decide)]
  obtain ⟨out, r, s, h₁, h₂⟩ :=
    sanitizeLoop_append_of_take_eq showKeys _ _ hb u hu false 0
  have hsecret : ∀ y : List UInt8, 0 ∉ y → sanitizeComma ∉ y →
      (∀ i < y.length, sanitizeKeyword showKeys (y.drop i) = none) →
      sanitizeLoop showKeys true 0 (y ++ w) = sanitizeLoop showKeys true 0 w :=
    fun y hy hcy hky => sanitizeLoop_drop_secret w y hy hcy fun i hi => by
      rw [List.drop_append_of_le_length (by omega), sanitizeKeyword_append_comma hw]
      exact hky i hi
  unfold sanitizeControlMessage
  simp only [List.append_assoc] at h₁ h₂ ⊢
  rw [h₁, h₂, sanitizeLoop_sessionIdPrefix, sanitizeLoop_sessionIdPrefix, hsecret x hx hcx hkx,
    hsecret x' hx' hcx' hkx']

end Payload

/-- `sanitize_control_message` of a message without NUL writes no more bytes than the message has
(and its own NUL): a subsequence of it, exactly the bytes `sanitizeKeeps` keeps. Those are every
byte outside the secret spans and, inside one, only bytes of the part a keyword lets through. So
an auth-token payload does not reach the log: any other payload with no ',' and no keyword in it
gives the same output. -/
theorem sanitize_control_message_hides_secrets :
    (∀ (showKeys : Bool) (m : List UInt8), 0 ∉ m →
      (sanitizeControlMessage showKeys m).length ≤ m.length ∧
      (sanitizeControlMessage showKeys m).Sublist m ∧
      sanitizeControlMessage showKeys m =
        (m.zipIdx.filter fun cj => sanitizeKeeps showKeys m cj.2).map Prod.fst ∧
      (∀ j, ¬InSecretSpan showKeys m j → sanitizeKeeps showKeys m j = true) ∧
      (∀ j, InSecretSpan showKeys m j → sanitizeKeeps showKeys m j = true →
        InKeptPrefix showKeys m j)) ∧
    (∀ (showKeys : Bool) (u x x' w : List UInt8), 0 ∉ u → 0 ∉ x → 0 ∉ x' →
      sanitizeComma ∉ x → sanitizeComma ∉ x' →
      (∀ i < x.length, sanitizeKeyword showKeys (x.drop i) = none) →
      (∀ i < x'.length, sanitizeKeyword showKeys (x'.drop i) = none) →
      (w = [] ∨ w.head? = some sanitizeComma) →
      sanitizeControlMessage showKeys (u ++ sessionIdPrefix ++ x ++ w) =
        sanitizeControlMessage showKeys (u ++ sessionIdPrefix ++ x' ++ w)) := by
  refine ⟨fun showKeys m h0 => ?_, fun showKeys u x x' w hu hx hx' hcx hcx' hkx hkx' hw =>
    sanitizeControlMessage_payload_eq hu hx hx' hcx hcx' hkx hkx' hw⟩
  have hsub : (sanitizeControlMessage showKeys m).Sublist m := sanitizeLoop_sublist false 0 m
  exact ⟨hsub.length_le, hsub, sanitizeControlMessage_eq_filter h0,
    fun _ => sanitizeKeeps_of_not_inSecretSpan, fun _ => inKeptPrefix_of_sanitizeKeeps⟩

/-- `auth-token SESS_ID_AT_k,ok` is logged as `auth-tokenSESS_ID,ok`, as `auth-token SESS_ID_AT_xy,ok`
is. -/
theorem sanitize_control_message_hides_secrets_auth_token :
    sanitizeControlMessage false (sanitizeAuthToken ++ sessionIdPrefix ++ [107] ++ [44, 111, 107]) =
        sanitizeAuthToken.take 10 ++ sessionIdPrefix.take 7 ++ [44, 111, 107] ∧
      sanitizeControlMessage false (sanitizeAuthToken ++ sessionIdPrefix ++ [107] ++ [44, 111, 107]) =
        sanitizeControlMessage false
          (sanitizeAuthToken ++ sessionIdPrefix ++ [120, 121] ++ [44, 111, 107]) ∧
      (sanitizeControlMessage false (sanitizeAuthToken ++ sessionIdPrefix ++ [107] ++ [44, 111, 107])).Sublist
        (sanitizeAuthToken ++ sessionIdPrefix ++ [107] ++ [44, 111, 107]) :=
  ⟨by decide,
    sanitize_control_message_hides_secrets.2 false sanitizeAuthToken [107] [120, 121] [44, 111, 107]
      (by decide) (by decide) (by decide) (by decide) (by decide) (by decide) (by decide)
      (Or.inr rfl),
    (sanitize_control_message_hides_secrets.1 false _ (by decide)).2.1⟩

end OpenVpn
