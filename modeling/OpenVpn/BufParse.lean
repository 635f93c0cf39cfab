import OpenVpn.BufferSpec

/-! `buf_parse` of `buffer.c`, the tokenizer that `apply_push_options`, `ifconfig_pool_read` and
the option readers run in a loop. One call reads bytes with `buf_read_u8` into `line` up to a
field end (the delimiter, a `NUL`, or the end of the buffer), writing at most `size` bytes, and
then cuts `line` at `size - 1`. A field that fits is returned whole and consumed through its
field end. A longer field is cut: the call stops after reading one byte past the `size` written,
so the rest of the field is parsed as further fields. -/

namespace OpenVpn

/-- The bytes `buf_parse` ends a field at: `c <= 0 || c == delim` for a byte `c` read. -/
def isFieldEnd (delim : Int) (c : UInt8) : Bool := c = 0 || (c.toNat : Int) = delim

/-- The C string in a character array: the bytes before the first `NUL`. -/
def cString (line : List UInt8) : List UInt8 := line.takeWhile (· ≠ 0)

/-- The `do … while (c)` loop of `buf_parse`, with `k` of the `size` slots of `line` left: the
next character goes to `line[size - k]`, and with no slot left the loop breaks after the read. -/
def bufParseLoop (delim : Int) (size : Nat) :
    Nat → Buffer → List UInt8 → Bool → Option (Buffer × List UInt8 × Bool)
  | k, buf, line, eol =>
      (bufReadU8 buf).bind fun r =>
        let eol := eol || decide (r.2 < 0)
        let c := if r.2 ≤ 0 ∨ r.2 = delim then 0 else r.2
        match k with
        | 0 => some (r.1, line, eol)
        | k + 1 =>
            let line := line.set (size - (k + 1)) (UInt8.ofNat c.toNat)
            if c = 0 then some (r.1, line, eol) else bufParseLoop delim size k r.1 line eol

/-- `buf_parse`: the next field of `buf` into `line`, an array of `size` bytes. It is `none` when
`ASSERT(size > 0)` fails or a read goes outside the buffer. -/
def bufParse (buf : Buffer) (delim : Int) (line : List UInt8) (size : Int) :
    Option (Buffer × List UInt8 × Bool) :=
  if size ≤ 0 then none
  else (bufParseLoop delim size.toNat size.toNat buf line false).map fun r =>
    let line := r.2.1.set (size.toNat - 1) 0
    (r.1, line, !(r.2.2 && decide ((cString line).length = 0)))

/-- A caller's loop `while (buf_parse(&buf, delim, line, size))`: after each call that returned
true, the string in `line` and what is left of the buffer. -/
def bufParseRun (delim size : Int) :
    Nat → Buffer → List UInt8 → Option (List (List UInt8 × List UInt8))
  | 0, _, _ => none
  | fuel + 1, buf, line =>
      (bufParse buf delim line size).bind fun r =>
        if r.2.2 then (bufParseRun delim size fuel r.1 r.2.1).map ((cString r.2.1, r.1.content) :: ·)
        else some []

section Read

variable {b : Buffer}

theorem bufReadU8_cons (hb : BufBounded b) {x : UInt8} {rest : List UInt8}
    (hc : b.content = x :: rest) :
    ∃ b', bufReadU8 b = some (b', (x.toNat : Int)) ∧ BufBounded b' ∧ b'.content = rest := by
  have hlen := hb.length_content
  have := hb.len_le
  have := hb.offset_nonneg
  rw [hc, List.length_cons] at hlen
  rw [hb.bufReadU8_eq, if_pos (by omega), hc]
  refine ⟨{ b with offset := b.offset + 1, len := b.len - 1 }, ?_,
    hb.window (by omega) (by omega) (by omega), ?_⟩
  · simp [BigEndian.decode]
  · rw [Buffer.content_advance hb.offset_nonneg (by omega) (by omega), hc]
    rfl

theorem bufReadU8_nil (hb : BufBounded b) (hc : b.content = []) : bufReadU8 b = some (b, -1) := by
  have hlen := hb.length_content
  rw [hc, List.length_nil] at hlen
  rw [hb.bufReadU8_eq, if_neg (by omega)]

end Read

/-- `line` with the bytes `w` written from index `n` on. -/
def writeAt (line : List UInt8) (n : Nat) (w : List UInt8) : List UInt8 :=
  line.take n ++ w ++ line.drop (n + w.length)

theorem writeAt_nil (line : List UInt8) (n : Nat) : writeAt line n [] = line := by
  rw [writeAt, List.append_nil, List.length_nil, Nat.add_zero, List.take_append_drop]

/-- Writing one byte at `n` and then `w` after it writes `x :: w` at `n`. -/
theorem writeAt_set {line : List UInt8} {n : Nat} (h : n < line.length) (x : UInt8)
    (w : List UInt8) : writeAt (line.set n x) (n + 1) w = writeAt line n (x :: w) := by
  have htake : (line.set n x).take (n + 1) = line.take n ++ [x] := by
    rw [List.take_succ_eq_append_getElem (by rw [List.length_set]; exact h),
      List.getElem_set_self, List.take_set_of_le (le_refl n)]
  rw [writeAt, writeAt, htake, List.drop_set_of_lt (by omega), List.length_cons,
    show n + 1 + w.length = n + (w.length + 1) by omega]
  simp only [List.append_assoc, List.cons_append, List.nil_append]

theorem length_writeAt {line : List UInt8} {n : Nat} {w : List UInt8}
    (h : n + w.length ≤ line.length) : (writeAt line n w).length = line.length := by
  rw [writeAt, List.length_append, List.length_append, List.length_take, List.length_drop]
  omega

section Loop

variable {delim : Int}

/-- A byte inside a field is read as itself: positive and not the delimiter. -/
theorem not_end_of_isFieldEnd {x : UInt8} (h : isFieldEnd delim x = false) :
    ¬((x.toNat : Int) ≤ 0 ∨ (x.toNat : Int) = delim) := by
  simp only [isFieldEnd, Bool.or_eq_false_iff, decide_eq_false_iff_not] at h
  have hx : x.toNat ≠ 0 := fun h0 => h.1 (UInt8.toNat_inj.mp (by rw [h0]; rfl))
  omega

/-- A field end is read as the terminator `0`. -/
theorem end_of_isFieldEnd {e : UInt8} (h : isFieldEnd delim e = true) :
    (e.toNat : Int) ≤ 0 ∨ (e.toNat : Int) = delim := by
  simp only [isFieldEnd, Bool.or_eq_true, decide_eq_true_eq] at h
  rcases h with h | h
  · left
    rw [h]
    rfl
  · exact Or.inr h

/-- A field that fits in the slots left is copied with its terminator, and its field end, or the end
of the buffer, is consumed. -/
theorem bufParseLoop_fits (size : Nat) {f : List UInt8}
    (hf : ∀ c ∈ f, isFieldEnd delim c = false) :
    ∀ (k : Nat) {buf : Buffer} (line : List UInt8) {rest : List UInt8} (eol : Bool),
      BufBounded buf → buf.content = f ++ rest → f.length < k → k ≤ size → size ≤ line.length →
      (rest = [] ∨ ∃ e rest', rest = e :: rest' ∧ isFieldEnd delim e = true) →
      ∃ buf', bufParseLoop delim size k buf line eol =
          some (buf', writeAt line (size - k) (f ++ [0]), eol || decide (rest = [])) ∧
        BufBounded buf' ∧ buf'.content = rest.drop 1 := by
  induction f with
  | nil =>
      intro k buf line rest eol hb hc hk hks hline hend
      obtain ⟨k, rfl⟩ : ∃ k', k = k' + 1 := Nat.exists_eq_add_one.mpr (by simp at hk; omega)
      have hset : line.set (size - (k + 1)) (UInt8.ofNat (Int.toNat 0)) =
          writeAt line (size - (k + 1)) [0] := by
        rw [← writeAt_set (by omega), writeAt_nil]
        rfl
      rw [List.nil_append] at hc
      rcases hend with rfl | ⟨e, rest', rfl, he⟩
      · -- the end of the buffer: `buf_read_u8` returns -1
        refine ⟨buf, ?_, hb, by rw [hc]; rfl⟩
        rw [bufParseLoop, bufReadU8_nil hb hc, Option.bind_some]
        simp
        exact hset
      · obtain ⟨buf', hread, hb', hc'⟩ := bufReadU8_cons hb hc
        refine ⟨buf', ?_, hb', hc'⟩
        rw [bufParseLoop, hread, Option.bind_some]
        dsimp only
        rw [if_pos (end_of_isFieldEnd he), if_pos rfl, hset]
        simp only [show ¬((e.toNat : Int) < 0) by omega, decide_false, Bool.or_false,
          reduceCtorEq, List.nil_append]
  | cons x f ih =>
      intro k buf line rest eol hb hc hk hks hline hend
      obtain ⟨k, rfl⟩ : ∃ k', k = k' + 1 := Nat.exists_eq_add_one.mpr (by simp at hk; omega)
      have hx := not_end_of_isFieldEnd (hf x List.mem_cons_self)
      obtain ⟨buf₁, hread, hb₁, hc₁⟩ := bufReadU8_cons hb hc
      obtain ⟨buf', hloop, hb', hc'⟩ := ih (fun c hc => hf c (List.mem_cons_of_mem _ hc)) k
        (line.set (size - (k + 1)) x) eol hb₁ hc₁ (by simp at hk; omega) (by omega) (by rw [List.length_set]; exact hline) hend
      refine ⟨buf', ?_, hb', hc'⟩
      rw [bufParseLoop, hread, Option.bind_some]
      simp only [if_neg hx, show ¬((x.toNat : Int) < 0) by omega, decide_false, Bool.or_false,
        Int.toNat_natCast, UInt8.ofNat_toNat]
      rw [if_neg (by omega), hloop, show size - k = size - (k + 1) + 1 by omega,
        writeAt_set (by omega), List.cons_append]

/-- A field at least as long as the slots left fills them; the loop breaks after reading one byte
more, whatever it is. -/
theorem bufParseLoop_fills (size : Nat) :
    ∀ {k : Nat} {f : List UInt8} {buf : Buffer} (line : List UInt8) {rest : List UInt8}
      (eol : Bool), (∀ c ∈ f, isFieldEnd delim c = false) → BufBounded buf → buf.content = f ++ rest →
      k ≤ f.length → k ≤ size → size ≤ line.length →
      ∃ buf', bufParseLoop delim size k buf line eol =
          some (buf', writeAt line (size - k) (f.take k),
            eol || decide (f.length + rest.length ≤ k)) ∧
        BufBounded buf' ∧ buf'.content = (f ++ rest).drop (k + 1) := by
  intro k
  induction k with
  | zero =>
      intro f buf line rest eol _ hb hc _ _ hline
      rw [List.take_zero, Nat.sub_zero, writeAt_nil]
      cases hfr : f ++ rest with
      | nil =>
          -- nothing left to read: `buf_read_u8` returns -1
          rw [hfr] at hc
          have hlen := congrArg List.length hfr
          rw [List.length_append, List.length_nil] at hlen
          refine ⟨buf, ?_, hb, by rw [hc]; rfl⟩
          rw [bufParseLoop, bufReadU8_nil hb hc, Option.bind_some]
          simp only [decide_true, Bool.or_true, show (-1 : Int) < 0 by decide,
            show f.length + rest.length ≤ 0 by omega]
      | cons y ys =>
          rw [hfr] at hc
          have hlen := congrArg List.length hfr
          rw [List.length_append, List.length_cons] at hlen
          obtain ⟨buf', hread, hb', hc'⟩ := bufReadU8_cons hb hc
          refine ⟨buf', ?_, hb', by rw [hc']; rfl⟩
          rw [bufParseLoop, hread, Option.bind_some]
          simp only [show ¬((y.toNat : Int) < 0) by omega, decide_false, Bool.or_false,
            show ¬(f.length + rest.length ≤ 0) by omega]
  | succ k ih =>
      intro f buf line rest eol hf hb hc hk hks hline
      obtain ⟨x, f, rfl⟩ := List.exists_cons_of_ne_nil (show f ≠ [] by rintro rfl; simp at hk)
      have hx := not_end_of_isFieldEnd (hf x List.mem_cons_self)
      obtain ⟨buf₁, hread, hb₁, hc₁⟩ := bufReadU8_cons hb (by rw [hc, List.cons_append])
      obtain ⟨buf', hloop, hb', hc'⟩ := ih (line.set (size - (k + 1)) x) eol
        (fun c hc => hf c (List.mem_cons_of_mem _ hc)) hb₁ hc₁ (by simp at hk; omega) (by omega) (by rw [List.length_set]; exact hline)
      refine ⟨buf', ?_, hb', by rw [hc', List.cons_append, List.drop_succ_cons]⟩
      rw [bufParseLoop, hread, Option.bind_some]
      simp only [if_neg hx, show ¬((x.toNat : Int) < 0) by omega, decide_false, Bool.or_false,
        Int.toNat_natCast, UInt8.ofNat_toNat]
      rw [if_neg (by omega), hloop, show size - k = size - (k + 1) + 1 by omega,
        writeAt_set (by omega), List.take_succ_cons, List.length_cons]
      simp only [show f.length + 1 + rest.length ≤ k + 1 ↔ f.length + rest.length ≤ k by omega]

end Loop

section Call

variable {delim : Int}

theorem ne_zero_of_isFieldEnd {c : UInt8} (h : isFieldEnd delim c = false) : c ≠ 0 := by
  simp only [isFieldEnd, Bool.or_eq_false_iff, decide_eq_false_iff_not] at h
  exact h.1

theorem cString_append_zero {f : List UInt8} (hf : ∀ c ∈ f, c ≠ 0) (r : List UInt8) :
    cString (f ++ 0 :: r) = f := by
  unfold cString
  rw [List.takeWhile_append_of_pos (by simpa using hf), List.takeWhile_cons_of_neg (by simp),
    List.append_nil]

/-- The C string of an array that starts with `f` and a `NUL`. -/
theorem cString_of_take {f l : List UInt8} (hf : ∀ c ∈ f, c ≠ 0)
    (h : l.take (f.length + 1) = f ++ [0]) : cString l = f := by
  rw [← List.take_append_drop (f.length + 1) l, h, List.append_assoc, List.singleton_append,
    cString_append_zero hf]

/-- `line[size - 1] = '\0'` past a terminated string leaves it as it is. -/
theorem take_set_zero_of_le {f l : List UInt8} (h : l.take (f.length + 1) = f ++ [0]) {i : Nat}
    (hi : f.length ≤ i) : (l.set i 0).take (f.length + 1) = f ++ [0] := by
  rw [List.take_set, h, List.set_append_right _ _ hi]
  cases i - f.length <;> rfl

/-- One call on a field that fits in `size - 1` bytes: the line is the field, the call consumes
its field end (or reaches the end of the buffer), and returns false only on an empty buffer. -/
theorem bufParse_fits {buf : Buffer} (hb : BufBounded buf) {size : Int} (hsize : 0 < size)
    {line : List UInt8} (hline : line.length = size.toNat) {f rest : List UInt8}
    (hf : ∀ c ∈ f, isFieldEnd delim c = false) (hc : buf.content = f ++ rest)
    (hlen : f.length < size.toNat)
    (hend : rest = [] ∨ ∃ e rest', rest = e :: rest' ∧ isFieldEnd delim e = true) :
    ∃ buf' line', bufParse buf delim line size =
        some (buf', line', !(decide (rest = []) && decide (f = []))) ∧
      cString line' = f ∧ line'.length = size.toNat ∧ BufBounded buf' ∧
      buf'.content = rest.drop 1 := by
  obtain ⟨buf', hloop, hb', hc'⟩ :=
    bufParseLoop_fits size.toNat hf size.toNat line false hb hc hlen le_rfl (by omega) hend
  rw [Nat.sub_self] at hloop
  have hw : (writeAt line 0 (f ++ [0])).take (f.length + 1) = f ++ [0] := by
    rw [writeAt, List.take_zero, List.nil_append, List.take_append_of_le_length (by simp),
      List.take_of_length_le (by simp)]
  have hnz : ∀ c ∈ f, c ≠ 0 := fun c hc => ne_zero_of_isFieldEnd (hf c hc)
  have hstr : cString ((writeAt line 0 (f ++ [0])).set (size.toNat - 1) 0) = f :=
    cString_of_take hnz (take_set_zero_of_le hw (by omega))
  refine ⟨buf', _, ?_, hstr, ?_, hb', hc'⟩
  · rw [bufParse, if_neg (by omega), hloop, Option.map_some]
    simp only [hstr, Bool.false_or, List.length_eq_zero_iff]
  · rw [List.length_set, length_writeAt (by simp; omega), hline]

/-- One call on a field of at least `size` bytes: the line is its first `size - 1` bytes, and the
call consumes `size + 1` bytes, the field end only when the field has exactly `size` bytes. -/
theorem bufParse_fills {buf : Buffer} (hb : BufBounded buf) {size : Int} (hsize : 0 < size)
    {line : List UInt8} (hline : line.length = size.toNat) {f rest : List UInt8}
    (hf : ∀ c ∈ f, isFieldEnd delim c = false) (hc : buf.content = f ++ rest)
    (hlen : size.toNat ≤ f.length) :
    ∃ buf' line', bufParse buf delim line size =
        some (buf', line', !(decide (f.length + rest.length ≤ size.toNat) &&
          decide (size.toNat = 1))) ∧
      cString line' = f.take (size.toNat - 1) ∧ line'.length = size.toNat ∧ BufBounded buf' ∧
      buf'.content = (f ++ rest).drop (size.toNat + 1) := by
  obtain ⟨buf', hloop, hb', hc'⟩ :=
    bufParseLoop_fills size.toNat line false hf hb hc hlen le_rfl (by omega)
  rw [Nat.sub_self] at hloop
  have hs : size.toNat - 1 + 1 = size.toNat := by omega
  have htake : f.take size.toNat = f.take (size.toNat - 1) ++ [f[size.toNat - 1]] := by
    rw [← List.take_succ_eq_append_getElem (by omega), hs]
  have hw : ((writeAt line 0 (f.take size.toNat)).set (size.toNat - 1) 0).take
      ((f.take (size.toNat - 1)).length + 1) = f.take (size.toNat - 1) ++ [0] := by
    rw [List.length_take, min_eq_left (by omega), hs, List.take_set, writeAt, List.take_zero,
      List.nil_append, List.take_append_of_le_length (by simp only [List.length_take]; omega),
      List.take_of_length_le (by simp only [List.length_take]; omega), htake,
      List.set_append_right _ _ (by simp only [List.length_take]; omega), List.length_take,
      min_eq_left (by omega : size.toNat - 1 ≤ f.length), Nat.sub_self]
    rfl
  have hnz : ∀ c ∈ f.take (size.toNat - 1), c ≠ 0 :=
    fun c hc => ne_zero_of_isFieldEnd (hf c (List.mem_of_mem_take hc))
  have hstr := cString_of_take hnz hw
  refine ⟨buf', _, ?_, hstr, ?_, hb', hc'⟩
  · rw [bufParse, if_neg (by omega), hloop, Option.map_some]
    simp only [hstr, Bool.false_or, List.length_take, min_eq_left (by omega : size.toNat - 1 ≤ f.length)]
    simp only [show size.toNat - 1 = 0 ↔ size.toNat = 1 by omega]
  · rw [List.length_set, length_writeAt (by simp; omega), hline]

end Call

/-- The fields of a content, split at every field end; a final empty field is left out. -/
def fields (delim : Int) (content : List UInt8) : List (List UInt8) :=
  let fs := content.splitOnP (isFieldEnd delim)
  if fs.getLast? = some [] then fs.dropLast else fs

/-- The fields of a content, each with what follows its field end; a last field that no field end
follows has nothing after it, and a final empty field is left out. -/
def fieldsRest (delim : Int) (content : List UInt8) : List (List UInt8 × List UInt8) :=
  match _h : content.dropWhile (fun c => !isFieldEnd delim c) with
  | [] => if content = [] then [] else [(content, [])]
  | _ :: rest => (content.takeWhile (fun c => !isFieldEnd delim c), rest) :: fieldsRest delim rest
termination_by content.length
decreasing_by
  have := List.length_dropWhile_le (fun c => !isFieldEnd delim c) content
  rw [_h, List.length_cons] at this
  omega

section Fields

variable {delim : Int}

/-- A content is a field, and then nothing or a field end and the rest. -/
theorem field_split (delim : Int) (content : List UInt8) :
    ∃ f, (∀ c ∈ f, isFieldEnd delim c = false) ∧
      (content = f ∨ ∃ e rest, isFieldEnd delim e = true ∧ content = f ++ e :: rest) := by
  have hall : ∀ c ∈ content.takeWhile (fun c => !isFieldEnd delim c), isFieldEnd delim c = false :=
    fun c hc => by simpa using List.mem_takeWhile_imp hc
  refine ⟨_, hall, ?_⟩
  have hsplit := List.takeWhile_append_dropWhile (p := fun c => !isFieldEnd delim c) (l := content)
  cases hd : content.dropWhile (fun c => !isFieldEnd delim c) with
  | nil =>
      rw [hd, List.append_nil] at hsplit
      exact Or.inl hsplit.symm
  | cons e rest =>
      have he := List.head_dropWhile_not (fun c => !isFieldEnd delim c) (l := content)
        (by rw [hd]; exact List.cons_ne_nil e rest)
      simp only [hd, List.head_cons, Bool.not_eq_false'] at he
      rw [hd] at hsplit
      exact Or.inr ⟨e, rest, he, hsplit.symm⟩

theorem fieldsRest_nil : fieldsRest delim [] = [] := by
  rw [fieldsRest]
  rfl

theorem fieldsRest_last {f : List UInt8} (hf : ∀ c ∈ f, isFieldEnd delim c = false)
    (hne : f ≠ []) : fieldsRest delim f = [(f, [])] := by
  have hdrop : f.dropWhile (fun c => !isFieldEnd delim c) = [] :=
    List.dropWhile_eq_nil_iff.mpr (fun c hc => by simp [hf c hc])
  rw [fieldsRest]
  split
  · rw [if_neg hne]
  · rename_i h
    rw [hdrop] at h
    cases h

theorem fieldsRest_field_end {f : List UInt8} (hf : ∀ c ∈ f, isFieldEnd delim c = false)
    {e : UInt8} (he : isFieldEnd delim e = true) (rest : List UInt8) :
    fieldsRest delim (f ++ e :: rest) = (f, rest) :: fieldsRest delim rest := by
  have hpos : ∀ c ∈ f, (fun c => !isFieldEnd delim c) c = true := fun c hc => by simp [hf c hc]
  have hdrop : (f ++ e :: rest).dropWhile (fun c => !isFieldEnd delim c) = e :: rest := by
    rw [List.dropWhile_append_of_pos hpos, List.dropWhile_cons_of_neg (by simp [he])]
  have htake : (f ++ e :: rest).takeWhile (fun c => !isFieldEnd delim c) = f := by
    rw [List.takeWhile_append_of_pos hpos, List.takeWhile_cons_of_neg (by simp [he]),
      List.append_nil]
  rw [fieldsRest]
  split
  · rename_i h
    rw [hdrop] at h
    cases h
  · rename_i x rest' h
    rw [hdrop] at h
    obtain ⟨rfl, rfl⟩ := List.cons.inj h
    rw [htake]

theorem getLast?_cons_of_ne_nil {α : Type} (a : α) {l : List α} (h : l ≠ []) :
    (a :: l).getLast? = l.getLast? := by
  obtain ⟨x, hx⟩ := Option.isSome_iff_exists.mp (List.getLast?_isSome.mpr h)
  rw [List.getLast?_cons, hx]
  rfl

/-- `fieldsRest` pairs each field of `fields` with what follows it. -/
theorem map_fst_fieldsRest (delim : Int) :
    ∀ (n : Nat) (content : List UInt8), content.length < n →
      (fieldsRest delim content).map Prod.fst = fields delim content := by
  intro n
  induction n with
  | zero => intro content h; omega
  | succ n ih =>
      intro content hlen
      obtain ⟨f, hf, hc | ⟨e, rest, he, hc⟩⟩ := field_split delim content <;> subst content
      · by_cases hne : f = []
        · subst hne
          rw [fieldsRest_nil]
          rfl
        · rw [fieldsRest_last hf hne, fields, List.splitOnP_eq_singleton hf]
          simp [hne]
      · rw [fieldsRest_field_end hf he, fields, List.splitOnP_append_cons_of_forall_mem hf e he,
          List.map_cons, ih rest (by simp at hlen; omega), fields,
          getLast?_cons_of_ne_nil _ (List.splitOnP_ne_nil _ _)]
        split_ifs
        · rw [List.dropLast_cons_of_ne_nil (List.splitOnP_ne_nil _ _)]
        · rfl

theorem bufReadU8_capacity {b b' : Buffer} {x : Int} (h : bufReadU8 b = some (b', x)) :
    b'.capacity = b.capacity := by
  unfold bufReadU8 at h
  split_ifs at h
  · cases h
    rfl
  · split at h
    · obtain ⟨bytes, -, hr⟩ := Option.map_eq_some_iff.mp h
      cases hr
      unfold bufAdvance
      split_ifs <;> rfl
    · cases h

/-- `buf_parse` only reads: the buffer keeps its capacity. -/
theorem bufParseLoop_capacity (size : Nat) :
    ∀ (k : Nat) {buf buf' : Buffer} {line line' : List UInt8} {eol eol' : Bool},
      bufParseLoop delim size k buf line eol = some (buf', line', eol') →
      buf'.capacity = buf.capacity := by
  intro k
  induction k with
  | zero =>
      intro buf buf' line line' eol eol' h
      obtain ⟨r, hr, h⟩ := Option.bind_eq_some_iff.mp (by rw [bufParseLoop] at h; exact h)
      cases h
      exact bufReadU8_capacity hr
  | succ k ih =>
      intro buf buf' line line' eol eol' h
      obtain ⟨r, hr, h⟩ := Option.bind_eq_some_iff.mp (by rw [bufParseLoop] at h; exact h)
      dsimp only at h
      split_ifs at h
      all_goals first
        | (cases h; exact bufReadU8_capacity hr)
        | exact (ih h).trans (bufReadU8_capacity hr)

theorem bufParse_capacity {buf buf' : Buffer} {line line' : List UInt8} {size : Int} {ok : Bool}
    (h : bufParse buf delim line size = some (buf', line', ok)) : buf'.capacity = buf.capacity := by
  unfold bufParse at h
  split_ifs at h
  obtain ⟨r, hr, h⟩ := Option.map_eq_some_iff.mp h
  cases h
  exact bufParseLoop_capacity size.toNat _ hr

/-- The first field of a content is its longest prefix with no field end. -/
theorem takeWhile_of_field_split {f content : List UInt8} (hf : ∀ c ∈ f, isFieldEnd delim c = false)
    (hc : content = f ∨ ∃ e rest, isFieldEnd delim e = true ∧ content = f ++ e :: rest) :
    content.takeWhile (fun c => !isFieldEnd delim c) = f := by
  have hpos : ∀ c ∈ f, (fun c => !isFieldEnd delim c) c = true := fun c hc => by simp [hf c hc]
  rcases hc with rfl | ⟨e, rest, he, rfl⟩
  · exact List.takeWhile_eq_self_iff.mpr hpos
  · rw [List.takeWhile_append_of_pos hpos, List.takeWhile_cons_of_neg (by simp [he]),
      List.append_nil]

/-- Every call on a bounded buffer is defined and keeps the buffer bounded; its line holds the
first field of the content, cut to `size - 1` bytes. -/
theorem bufParse_safe (delim : Int) {buf : Buffer} (hb : BufBounded buf) {size : Int}
    (hsize : 0 < size) {line : List UInt8} (hline : line.length = size.toNat) :
    ∃ buf' line' ok, bufParse buf delim line size = some (buf', line', ok) ∧ BufBounded buf' ∧
      line'.length = size.toNat ∧
      cString line' = (buf.content.takeWhile fun c => !isFieldEnd delim c).take (size.toNat - 1) := by
  obtain ⟨f, hf, hc⟩ := field_split delim buf.content
  rw [takeWhile_of_field_split hf hc]
  -- the content as the field and what follows it
  obtain ⟨rest, hrest, hend⟩ : ∃ rest, buf.content = f ++ rest ∧
      (rest = [] ∨ ∃ e rest', rest = e :: rest' ∧ isFieldEnd delim e = true) := by
    rcases hc with hc | ⟨e, rest', he, hc⟩
    · exact ⟨[], by rw [hc, List.append_nil], Or.inl rfl⟩
    · exact ⟨e :: rest', hc, Or.inr ⟨e, rest', rfl, he⟩⟩
  by_cases hlen : f.length < size.toNat
  · obtain ⟨buf', line', hcall, hstr, hl', hb', -⟩ := bufParse_fits hb hsize hline hf hrest hlen hend
    refine ⟨buf', line', _, hcall, hb', hl', ?_⟩
    rw [hstr, List.take_of_length_le (by omega)]
  · obtain ⟨buf', line', hcall, hstr, hl', hb', -⟩ :=
      bufParse_fills hb hsize hline hf hrest (by omega)
    exact ⟨buf', line', _, hcall, hb', hl', hstr⟩

end Fields

section Run

variable {delim size : Int}

/-- While every field fits in `size` bytes (and, for `size = 1`, the content ends with a field end),
the loop returns each field cut to `size - 1` bytes, and after each call the buffer holds exactly
what follows that field's end. -/
theorem bufParseRun_fieldsRest (hsize : 0 < size) :
    ∀ (n : Nat) (content : List UInt8), content.length < n →
      (∀ f ∈ content.splitOnP (isFieldEnd delim), f.length ≤ size.toNat) →
      (size.toNat = 1 → ∀ f ∈ (content.splitOnP (isFieldEnd delim)).getLast?, f = []) →
      ∀ (buf : Buffer) (line : List UInt8), BufBounded buf → buf.content = content →
        line.length = size.toNat →
        bufParseRun delim size n buf line =
          some ((fieldsRest delim content).map fun fr => (fr.1.take (size.toNat - 1), fr.2)) := by
  intro n
  induction n with
  | zero => intro content h; omega
  | succ n ih =>
      intro content hlen hfit hlast
      obtain ⟨f, hf, hcf | ⟨e, rest, he, hcf⟩⟩ := field_split delim content <;> subst content <;>
        intro buf line hb hc hline
      · -- a last field that no field end follows
        by_cases hne : f = []
        · subst hne
          obtain ⟨buf', line', hcall, -⟩ :=
            bufParse_fits hb hsize hline hf (by rw [hc, List.append_nil])
              (by rw [List.length_nil]; omega) (Or.inl rfl)
          rw [bufParseRun, hcall, Option.bind_some, fieldsRest_nil]
          rfl
        have hpos := List.length_pos_of_ne_nil hne
        have hsingle := List.splitOnP_eq_singleton hf
        have hflen : f.length ≤ size.toNat := hfit f (by rw [hsingle]; exact List.mem_singleton_self f)
        have hrest : ∀ (buf' : Buffer) (line' : List UInt8), BufBounded buf' → buf'.content = [] →
            line'.length = size.toNat → bufParseRun delim size n buf' line' = some [] := by
          intro buf' line' hb' hc' hline'
          rw [ih [] (by rw [List.length_nil]; omega) (by simp) (by simp) buf' line' hb' hc' hline',
            fieldsRest_nil]
          rfl
        rw [fieldsRest_last hf hne]
        by_cases hfits : f.length < size.toNat
        · obtain ⟨buf', line', hcall, hstr, hline', hb', hc'⟩ :=
            bufParse_fits hb hsize hline hf (by rw [hc, List.append_nil]) hfits (Or.inl rfl)
          rw [bufParseRun, hcall, Option.bind_some]
          simp only [decide_true, hne, decide_false, Bool.true_and, Bool.not_false, if_true]
          rw [hrest buf' line' hb' hc' hline', hstr, hc']
          simp [List.take_of_length_le (show f.length ≤ size.toNat - 1 by omega)]
        · -- exactly `size` bytes: the end of the buffer is read as the byte after them
          have hone : size.toNat ≠ 1 := by
            intro h1
            exact hne (hlast h1 f (by rw [hsingle]; rfl))
          obtain ⟨buf', line', hcall, hstr, hline', hb', hc'⟩ :=
            bufParse_fills hb hsize hline hf (by rw [hc, List.append_nil]) (by omega)
          rw [List.append_nil, List.drop_of_length_le (by omega)] at hc'
          rw [bufParseRun, hcall, Option.bind_some]
          simp only [hone, decide_false, Bool.and_false, Bool.not_false, if_true]
          rw [hrest buf' line' hb' hc' hline', hstr, hc']
          rfl
      · -- a field and its field end
        have hsplit := List.splitOnP_append_cons_of_forall_mem hf e he rest
        have hflen : f.length ≤ size.toNat := hfit f (by rw [hsplit]; exact List.mem_cons_self)
        have hrlen : rest.length < n := by simp at hlen; omega
        have hnext := ih rest hrlen (fun g hg => hfit g (by rw [hsplit]; exact List.mem_cons_of_mem _ hg))
          (fun h1 g hg => hlast h1 g (by
            rw [hsplit, getLast?_cons_of_ne_nil _ (List.splitOnP_ne_nil _ _)]
            exact hg))
        rw [fieldsRest_field_end hf he, List.map_cons]
        by_cases hfits : f.length < size.toNat
        · obtain ⟨buf', line', hcall, hstr, hline', hb', hc'⟩ :=
            bufParse_fits hb hsize hline hf hc hfits (Or.inr ⟨e, rest, rfl, he⟩)
          rw [bufParseRun, hcall, Option.bind_some]
          simp only [reduceCtorEq, decide_false, Bool.false_and, Bool.not_false, if_true]
          rw [hnext buf' line' hb' hc' hline', hstr, hc', List.take_of_length_le (by omega)]
          rfl
        · -- exactly `size` bytes: the byte read after them is the field end
          obtain ⟨buf', line', hcall, hstr, hline', hb', hc'⟩ :=
            bufParse_fills hb hsize hline hf hc (by omega)
          rw [List.drop_append, List.drop_of_length_le (by omega), List.nil_append,
            show size.toNat + 1 - f.length = 1 by omega, List.drop_one, List.tail_cons] at hc'
          rw [bufParseRun, hcall, Option.bind_some]
          simp only [show ¬(f.length + (e :: rest).length ≤ size.toNat) by simp; omega,
            decide_false, Bool.false_and, Bool.not_false, if_true]
          rw [hnext buf' line' hb' hc' hline', hstr, hc']
          rfl

/-- `buf_parse` tokenizes by fields only while fields fit. (a) When every field has at most `size`
bytes (and, for `size = 1`, the content ends with a field end), calling it until it returns false
gives the fields of the content split at the delimiter and at `NUL` bytes, a final empty field left
out, each cut to `size - 1` bytes, and each call consumes the buffer through that field's end.
(b) A longer field is cut: the call returns its first `size - 1` bytes, returns true, and leaves
the field from byte `size + 1` on in the buffer, so the next calls return the rest of the field as
further fields. -/
theorem buf_parse_tokenizes (hsize : 0 < size) :
    (∀ content : List UInt8,
      (∀ f ∈ content.splitOnP (isFieldEnd delim), f.length ≤ size.toNat) →
      (size.toNat = 1 → ∀ f ∈ (content.splitOnP (isFieldEnd delim)).getLast?, f = []) →
      ∀ (buf : Buffer) (line : List UInt8), BufBounded buf → buf.content = content →
        line.length = size.toNat →
        bufParseRun delim size (content.length + 1) buf line =
          some ((fieldsRest delim content).map fun fr => (fr.1.take (size.toNat - 1), fr.2)) ∧
        (fieldsRest delim content).map Prod.fst = fields delim content) ∧
    (∀ f rest : List UInt8, (∀ c ∈ f, isFieldEnd delim c = false) → size.toNat < f.length →
      ∀ (buf : Buffer) (line : List UInt8), BufBounded buf → buf.content = f ++ rest →
        line.length = size.toNat →
        ∃ buf' line', bufParse buf delim line size = some (buf', line', true) ∧
          cString line' = f.take (size.toNat - 1) ∧ buf'.content = f.drop (size.toNat + 1) ++ rest) := by
  refine ⟨fun content hfit hlast buf line hb hc hline =>
    ⟨bufParseRun_fieldsRest hsize _ content (Nat.lt_succ_self _) hfit hlast buf line hb hc hline,
      map_fst_fieldsRest delim _ content (Nat.lt_succ_self _)⟩, ?_⟩
  intro f rest hf hlong buf line hb hc hline
  obtain ⟨buf', line', hcall, hstr, -, -, hc'⟩ := bufParse_fills hb hsize hline hf hc (by omega)
  refine ⟨buf', line', ?_, hstr, ?_⟩
  · rw [hcall]
    simp only [show ¬(f.length + rest.length ≤ size.toNat) by omega, decide_false,
      Bool.false_and, Bool.not_false]
  · rw [hc', List.drop_append_of_le_length (by omega)]

end Run

/-- With a 4-byte line and the delimiter `,`, the first field `abcdef` of `abcdef,g` is cut: the
first call returns `abc` and leaves `f,g`, in the middle of the field, where the content has the two
fields `abcdef` and `g`. -/
theorem buf_parse_tokenizes_long_field :
    (∃ buf' line', bufParse ⟨8, 0, 8, some [97, 98, 99, 100, 101, 102, 44, 103]⟩ 44
        (List.replicate 4 0) 4 = some (buf', line', true) ∧
      cString line' = [97, 98, 99] ∧ buf'.content = [102, 44, 103]) ∧
    fields 44 [97, 98, 99, 100, 101, 102, 44, 103] = [[97, 98, 99, 100, 101, 102], [103]] := by
  have hb : BufBounded ⟨8, 0, 8, some [97, 98, 99, 100, 101, 102, 44, 103]⟩ :=
    ⟨⟨rfl, by decide, by decide, by decide, by decide, by decide⟩, by decide⟩
  have hf : ∀ c ∈ ([97, 98, 99, 100, 101, 102] : List UInt8), isFieldEnd 44 c = false := by
    simp [isFieldEnd]
  exact ⟨(buf_parse_tokenizes (by decide)).2 [97, 98, 99, 100, 101, 102] [44, 103] hf
    (by decide) _ _ hb rfl rfl, by decide⟩

end OpenVpn
