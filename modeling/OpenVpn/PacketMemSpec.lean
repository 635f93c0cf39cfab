import OpenVpn.ClientNatSpec

/-! Loads and stores of `PacketMem` that stay inside the memory, as equations: a load gives the
field and records its indices, a one-byte store is `List.set`, and `ADJUST_CHECKSUM` on a word
stores the patched word byte by byte. With them go the facts about windows `fieldAt` of the
allocation that the packet proofs use: a window of a window, and a byte set inside or outside a
window. -/

namespace OpenVpn

/-! ### Windows of the allocation -/

section Window

variable {B : List UInt8} {i : Int} {j k l : Nat}

/-- The field `j` bytes into a window is a window of its own. -/
theorem fieldAt_add (h₀ : 0 ≤ i) : fieldAt B (i + j) k = (fieldAt B i (j + k)).drop j := by
  have hi : (i + j).toNat = i.toNat + j := by omega
  rw [fieldAt, fieldAt, hi, List.drop_take, List.drop_drop, Nat.add_sub_cancel_left]

/-- The bytes of a window after its first `l`. -/
theorem fieldAt_rest (h₀ : 0 ≤ i) (hl : l ≤ k) : fieldAt B (i + l) (k - l) = (fieldAt B i k).drop l := by
  rw [fieldAt_add h₀, Nat.add_sub_cancel' hl]

theorem fieldAt_take (h : k ≤ j) : (fieldAt B i j).take k = fieldAt B i k := by
  rw [fieldAt, fieldAt, List.take_take, Nat.min_eq_left h]

theorem fieldAt_drop_take (h₀ : 0 ≤ i) (h : j + l ≤ k) :
    ((fieldAt B i k).drop j).take l = fieldAt B (i + j) l := by
  rw [fieldAt, fieldAt, List.drop_take, List.take_take, List.drop_drop, Nat.min_eq_left (by omega),
    show (i + j).toNat = i.toNat + j by omega]

/-- A byte set at or after the start of a window is set in the window. -/
theorem fieldAt_set (h : i.toNat ≤ l) (b : UInt8) :
    fieldAt (B.set l b) i k = (fieldAt B i k).set (l - i.toNat) b := by
  rw [fieldAt, List.drop_set, if_neg (by omega), List.take_set]
  rfl

theorem fieldAt_set_of_lt (h : l < i.toNat) (b : UInt8) : fieldAt (B.set l b) i k = fieldAt B i k := by
  rw [fieldAt, List.drop_set, if_pos h]
  rfl

theorem fieldAt_set_of_le (h : i.toNat + k ≤ l) (b : UInt8) : fieldAt (B.set l b) i k = fieldAt B i k := by
  rw [fieldAt_set (by omega), List.set_eq_of_length_le]
  simp only [fieldAt, List.length_take, List.length_drop]
  omega

/-- A 16-bit field whose two bytes were set. -/
theorem fieldAt_set_set_two (h₀ : 0 ≤ i) (h : i + 2 ≤ B.length) (x y : UInt8) :
    fieldAt ((B.set i.toNat x).set (i.toNat + 1) y) i 2 = [x, y] := by
  obtain ⟨a, b, hab⟩ := List.length_eq_two.mp (length_fieldAt h₀ h)
  rw [fieldAt_set (by omega), fieldAt_set le_rfl, hab, Nat.sub_self, Nat.add_sub_cancel_left]
  rfl

theorem decode_fieldAt_one_lt (h₀ : 0 ≤ i) (h : i + 1 ≤ B.length) :
    BigEndian.decode (fieldAt B i 1) < 256 := by
  have := BigEndian.decode_lt (fieldAt B i 1)
  rwa [length_fieldAt h₀ h, pow_one] at this

theorem decode_fieldAt_two (h₀ : 0 ≤ i) (h : i + 2 ≤ B.length) :
    BigEndian.decode (fieldAt B i 2) =
      BigEndian.decode (fieldAt B i 1) * 256 + BigEndian.decode (fieldAt B (i + 1) 1) := by
  obtain ⟨x, y, hxy⟩ := List.length_eq_two.mp (length_fieldAt h₀ h)
  have h1 := fieldAt_add (B := B) (j := 1) (k := 1) h₀
  rw [Nat.cast_one] at h1
  rw [h1, ← fieldAt_take (k := 1) (j := 2) (by omega), hxy]
  simp [BigEndian.decode]

/-- The two bytes the loop reads of an option, its kind and its length. -/
theorem decode_fieldAt_kind_len {a b : UInt8} {rest : List UInt8} (h₀ : 0 ≤ i) (hk : 2 ≤ k)
    (ho : fieldAt B i k = a :: b :: rest) :
    BigEndian.decode (fieldAt B i 1) = a.toNat ∧ BigEndian.decode (fieldAt B (i + 1) 1) = b.toNat := by
  have h1 := fieldAt_drop_take (B := B) (j := 1) (l := 1) h₀ hk
  rw [Nat.cast_one, ho] at h1
  rw [← fieldAt_take (k := 1) (j := k) (by omega), ho, ← h1]
  simp [BigEndian.decode]

theorem splice_two_eq_set_set {α : Type} (l : List α) (i : Nat) (x y : α) (h : i + 2 ≤ l.length) :
    l.take i ++ [x, y] ++ l.drop (i + 2) = (l.set i x).set (i + 1) y := by
  rw [List.set_eq_take_append_cons_drop, if_pos (by simp; omega), List.set_eq_take_append_cons_drop,
    if_pos (by omega)]
  have hmin : min i l.length = i := by omega
  have h2 : i + 1 + 1 - i = 2 := by omega
  simp [List.take_append, List.drop_append, hmin, List.take_take, h2]
  omega

theorem exists_cons_cons {α : Type} {l : List α} (h : 2 ≤ l.length) : ∃ a b rest, l = a :: b :: rest :=
  match l, h with
  | a :: b :: rest, _ => ⟨a, b, rest, rfl⟩

end Window

/-! ### Loads and stores that stay inside the memory -/

namespace PacketMem

variable {m m₁ : PacketMem} {bytes : List UInt8} {touched : List Int} {i : Int} {n v : Nat}

theorem load_eq (h₀ : 0 ≤ i) (h : i + n ≤ m.bytes.length) :
    m.load i n = some (BigEndian.decode (fieldAt m.bytes i n),
      { m with touched := m.touched ++ (List.range n).map fun k : Nat => i + k }) := by
  simp [load, memRead, h₀, h, fieldAt]

theorem load_mk (h₀ : 0 ≤ i) (h : i + n ≤ bytes.length) :
    (PacketMem.mk bytes touched).load i n = some (BigEndian.decode (fieldAt bytes i n),
      ⟨bytes, touched ++ (List.range n).map fun k : Nat => i + k⟩) :=
  load_eq (m := ⟨bytes, touched⟩) h₀ h

/-- The indices a load or a store of `n` bytes at `i` records. -/
@[simp] theorem mem_map_range_add {i j : Int} {n : Nat} :
    j ∈ (List.range n).map (fun k : Nat => i + k) ↔ i ≤ j ∧ j < i + n := by
  simp only [List.mem_map, List.mem_range]
  constructor
  · rintro ⟨k, hk, rfl⟩
    omega
  · intro h
    exact ⟨(j - i).toNat, by omega, by omega⟩

/-- A load records only the indices of its field. -/
theorem load_touched (h : m.load i n = some (v, m₁)) :
    ∀ j ∈ m₁.touched, j ∈ m.touched ∨ (i ≤ j ∧ j < i + n) := by
  simp only [load, Option.map_eq_some_iff, Prod.mk.injEq] at h
  obtain ⟨-, -, -, rfl⟩ := h
  intro j hj
  simp only [List.mem_append, List.mem_map, List.mem_range] at hj
  rcases hj with hj | ⟨k, hk, rfl⟩
  · exact .inl hj
  · exact .inr (by omega)

theorem load_ne_none (h₀ : 0 ≤ i) (h : i + n ≤ m.bytes.length) : m.load i n ≠ none := by
  rw [load_eq h₀ h]
  exact Option.some_ne_none _

theorem load_value (h : m.load i n = some (v, m₁)) : v = BigEndian.decode (fieldAt m.bytes i n) :=
  (load_spec h).2.2.1

theorem load_bytes (h : m.load i n = some (v, m₁)) : m₁.bytes = m.bytes :=
  (load_spec h).2.2.2

theorem store_eq (h₀ : 0 ≤ i) (h : i + n ≤ m.bytes.length) :
    m.store i n v = some ⟨m.bytes.take i.toNat ++ BigEndian.encode n v ++ m.bytes.drop (i.toNat + n),
      m.touched ++ (List.range n).map fun k : Nat => i + k⟩ := by
  simp [store, memWrite, h₀, h]

theorem store_one_mk (h₀ : 0 ≤ i) (h : i + 1 ≤ bytes.length) :
    (PacketMem.mk bytes touched).store i 1 v = some ⟨bytes.set i.toNat (UInt8.ofNat v), touched ++ [i]⟩ := by
  rw [store_eq (m := ⟨bytes, touched⟩) h₀ h, List.set_eq_take_append_cons_drop, if_pos (by omega)]
  simp [BigEndian.encode]

/-- `ADJUST_CHECKSUM` on the word at `i` stores the patched word there byte by byte. -/
theorem clientNatAdjust_mk {acc : Int} (h₀ : 0 ≤ i) (h : i + 2 ≤ bytes.length) :
    clientNatAdjust ⟨bytes, touched⟩ i acc =
      some ⟨(bytes.set i.toNat (UInt8.ofNat (adjustChecksum acc (BigEndian.decode (fieldAt bytes i 2)) / 256))).set
          (i.toNat + 1) (UInt8.ofNat (adjustChecksum acc (BigEndian.decode (fieldAt bytes i 2)))),
        touched ++ [i, i + 1] ++ [i, i + 1]⟩ := by
  simp only [clientNatAdjust, load_mk h₀ h, Option.bind_eq_bind, Option.bind_some]
  rw [store_eq (m := ⟨bytes, touched ++ (List.range 2).map fun k : Nat => i + k⟩) h₀ h]
  simp [BigEndian.encode, splice_two_eq_set_set _ _ _ _ (by omega : i.toNat + 2 ≤ bytes.length),
    List.range_succ]

end PacketMem

/-! ### Recorded accesses -/

section Touched

variable {t t₁ t₂ : List Int} {lo hi lo' hi' a : Int} {n : Nat}

/-- The indices recorded in `t'` beyond those of `t` lie in `[lo, hi)`. -/
def TouchedIn (t t' : List Int) (lo hi : Int) : Prop := ∀ j ∈ t', j ∈ t ∨ (lo ≤ j ∧ j < hi)

theorem TouchedIn.refl (t : List Int) (lo hi : Int) : TouchedIn t t lo hi := fun _ hj => .inl hj

theorem TouchedIn.trans (h₁ : TouchedIn t t₁ lo hi) (h₂ : TouchedIn t₁ t₂ lo' hi')
    (hlo : lo ≤ lo') (hhi : hi' ≤ hi) : TouchedIn t t₂ lo hi := by
  intro j hj
  rcases h₂ j hj with hj | hj
  · exact h₁ j hj
  · exact .inr (by omega)

/-- An access of `n` bytes at `a` inside `[lo, hi)`. -/
theorem TouchedIn.range (h : TouchedIn t t₁ lo hi) (hlo : lo ≤ a) (hhi : a + n ≤ hi) :
    TouchedIn t (t₁ ++ (List.range n).map fun k : Nat => a + k) lo hi := by
  intro j hj
  rcases List.mem_append.mp hj with hj | hj
  · exact h j hj
  · rw [PacketMem.mem_map_range_add] at hj
    exact .inr (by omega)

end Touched

/-! ### Buffers -/

theorem bufLen_nonneg (b : Buffer) : 0 ≤ bufLen b := by
  unfold bufLen bufValid
  split_ifs with h
  · simp only [Bool.and_eq_true, decide_eq_true_eq] at h
    exact h.2
  · exact le_rfl

theorem bufBptr_of_bufLen_pos {b : Buffer} (h : 0 < bufLen b) : bufBptr b = some b.offset := by
  unfold bufLen at h
  unfold bufBptr
  split_ifs at h ⊢ with hv
  · rfl
  · exact absurd h (lt_irrefl 0)

end OpenVpn
