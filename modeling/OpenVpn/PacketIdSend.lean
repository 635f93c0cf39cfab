import Mathlib.Data.Prod.Lex
import OpenVpn.BufferSafety
import OpenVpn.PacketId

/-! The send side of `packet_id.c`: `packet_id_send_update` advances the 64-bit counter of a
`struct packet_id_send`, latching the time on first use and rolling the id over only in the long
form and only at a later time; `packet_id_write` then writes the id, cut to 32 bits, and in the
long form the time, into a buffer. Over any run of writes at non-decreasing times the
`(time, id)` pairs of the successful ones increase in the lexicographic order, so no nonce is
sent twice. -/

namespace OpenVpn

-- `PACKET_ID_MAX`, `UINT32_MAX`
def packetIdMax : UInt64 := 4294967295

/-- `struct packet_id_send`. -/
structure PacketIdSend where
  id : UInt64
  time : Int
  deriving DecidableEq, Repr

/-- The state `reset_packet_id_send` leaves, which is also the zero-initialised one. -/
def resetPacketIdSend : PacketIdSend := ⟨0, 0⟩

/-- `packet_id_send_update`: the state after the call and its result. At the maximum id the
counter rolls over (`time = now; id = 0; id++`) only in the long form and at a later time. -/
def packetIdSendUpdate (p : PacketIdSend) (longForm : Bool) (now : Int) : PacketIdSend × Bool :=
  let p := if p.time = 0 then { p with time := now } else p
  if p.id = packetIdMax then
    if !longForm || decide (now ≤ p.time) then (p, false)
    else ({ time := now, id := 1 }, true)
  else ({ p with id := p.id + 1 }, true)

/-- `htonpid(p->id)`: the id cut to a 32-bit `packet_id_type`, in network order. -/
def htonpid (id : UInt64) : List UInt8 := BigEndian.encode 4 (id.toNat % 2 ^ 32)

/-- `htontime(p->time)`: the time cut to a 32-bit `net_time_t`, in network order. -/
def htontime (time : Int) : List UInt8 := BigEndian.encode 4 (time % 2 ^ 32).toNat

/-- `packet_id_write`: the state, the buffer and the result. A failed buffer write comes after
the update, so the id it would have carried is spent. -/
def packetIdWrite (p : PacketIdSend) (buf : Buffer) (longForm prepend : Bool) (now : Int) :
    Option (PacketIdSend × Buffer × Bool) :=
  match packetIdSendUpdate p longForm now with
  | (p, false) => some (p, buf, false)
  | (p, true) =>
      if prepend then
        match (if longForm then bufWritePrepend buf (htontime p.time) 0 4 else some (buf, true)) with
        | none => none
        | some (buf, false) => some (p, buf, false)
        | some (buf, true) => (bufWritePrepend buf (htonpid p.id) 0 4).map fun r => (p, r.1, r.2)
      else
        match bufWrite buf (htonpid p.id) 0 4 with
        | none => none
        | some (buf, false) => some (p, buf, false)
        | some (buf, true) =>
            if longForm then (bufWrite buf (htontime p.time) 0 4).map fun r => (p, r.1, r.2)
            else some (p, buf, true)

/-- Successive `packet_id_write` calls with one `long_form`, each with its `now`, buffer and
`prepend`: the final state and the `(time, id)` of every call that returned true. -/
def packetIdWriteRun (longForm : Bool) :
    PacketIdSend → List (Int × Buffer × Bool) → Option (PacketIdSend × List (Int × UInt64))
  | p, [] => some (p, [])
  | p, (now, buf, prepend) :: calls =>
      (packetIdWrite p buf longForm prepend now).bind fun r =>
        (packetIdWriteRun longForm r.1 calls).map fun s =>
          (s.1, if r.2.2 then (r.1.time, r.1.id) :: s.2 else s.2)

/-- The three outcomes of `packet_id_send_update`, with `t` the latched time. -/
theorem packetIdSendUpdate_cases (p : PacketIdSend) (longForm : Bool) (now : Int) :
    let t := if p.time = 0 then now else p.time
    (p.id = packetIdMax ∧ (longForm = false ∨ now ≤ t) ∧
        packetIdSendUpdate p longForm now = (⟨p.id, t⟩, false)) ∨
      (p.id = packetIdMax ∧ longForm = true ∧ t < now ∧
        packetIdSendUpdate p longForm now = (⟨1, now⟩, true)) ∨
      (p.id ≠ packetIdMax ∧ packetIdSendUpdate p longForm now = (⟨p.id + 1, t⟩, true)) := by
  intro t
  have hp : (if p.time = 0 then { p with time := now } else p) = ⟨p.id, t⟩ := by
    unfold t
    split_ifs <;> rfl
  unfold packetIdSendUpdate
  rw [hp]
  dsimp only
  by_cases hm : p.id = packetIdMax
  · cases longForm with
    | false =>
        exact Or.inl ⟨hm, Or.inl rfl, by simp [hm]⟩
    | true =>
        by_cases hle : now ≤ t
        · exact Or.inl ⟨hm, Or.inr hle, by simp [hm, hle]⟩
        · exact Or.inr (Or.inl ⟨hm, rfl, by omega, by simp [hm, hle]⟩)
  · exact Or.inr (Or.inr ⟨hm, by simp [hm]⟩)

/-- A successful update leaves an id in `[1, 2^32 - 1]`. -/
theorem id_packetIdSendUpdate {p : PacketIdSend} {longForm : Bool} {now : Int}
    (hid : p.id.toNat ≤ 2 ^ 32 - 1) (hok : (packetIdSendUpdate p longForm now).2 = true) :
    1 ≤ (packetIdSendUpdate p longForm now).1.id.toNat ∧
      (packetIdSendUpdate p longForm now).1.id.toNat ≤ 2 ^ 32 - 1 := by
  rcases packetIdSendUpdate_cases p longForm now with ⟨-, -, h⟩ | ⟨-, -, -, h⟩ | ⟨hm, h⟩ <;>
    rw [h] at hok ⊢
  · cases hok
  · exact ⟨le_rfl, by dsimp only; decide⟩
  · have hne : p.id.toNat ≠ 2 ^ 32 - 1 := fun he => hm (UInt64.toNat_inj.mp he)
    dsimp only
    rw [UInt64.toNat_add_one_of_lt (by omega)]
    omega

/-- A write into a bounded buffer is defined, leaves the state of the update, and succeeds only
if the update did. -/
theorem packetIdWrite_of_bounded {buf : Buffer} (hb : BufBounded buf) (p : PacketIdSend)
    (longForm prepend : Bool) (now : Int) :
    ∃ buf' ok, packetIdWrite p buf longForm prepend now =
        some ((packetIdSendUpdate p longForm now).1, buf', ok) ∧
      (ok = true → (packetIdSendUpdate p longForm now).2 = true) := by
  have hwrite : ∀ {b : Buffer} (src : List UInt8), BufBounded b → src.length = 4 →
      ∃ b' ok, bufWrite b src 0 4 = some (b', ok) ∧ BufBounded b' := by
    intro b src hb hlen
    obtain ⟨b', ok, h, hb', -⟩ := bufWrite_atomic src b hb
    rw [hlen] at h
    exact ⟨b', ok, h, hb'⟩
  have hprepend : ∀ {b : Buffer} (src : List UInt8), BufBounded b → src.length = 4 →
      ∃ b' ok, bufWritePrepend b src 0 4 = some (b', ok) ∧ BufBounded b' := by
    intro b src hb hlen
    obtain ⟨b', ok, h, hb', -⟩ := bufWritePrepend_atomic src b hb
    dsimp only at h
    rw [hlen] at h
    exact ⟨b', ok, h, hb'⟩
  rcases hu : packetIdSendUpdate p longForm now with ⟨q, ok⟩
  cases ok with
  | false => exact ⟨buf, false, by rw [packetIdWrite, hu], fun h => by cases h⟩
  | true =>
      cases prepend with
      | true =>
          have hfirst : ∃ b' ok, (if longForm then bufWritePrepend buf (htontime q.time) 0 4
              else some (buf, true)) = some (b', ok) ∧ BufBounded b' := by
            cases longForm with
            | true => exact hprepend _ hb (BigEndian.length_encode _ _)
            | false => exact ⟨buf, true, rfl, hb⟩
          obtain ⟨b₁, ok₁, h₁, hb₁⟩ := hfirst
          cases ok₁ with
          | false => exact ⟨b₁, false, by simp only [packetIdWrite, hu, if_true, h₁], fun h => by cases h⟩
          | true =>
              obtain ⟨b₂, ok₂, h₂, -⟩ := hprepend (htonpid q.id) hb₁ (BigEndian.length_encode _ _)
              exact ⟨b₂, ok₂, by simp only [packetIdWrite, hu, if_true, h₁, h₂, Option.map_some],
                fun _ => rfl⟩
      | false =>
          obtain ⟨b₁, ok₁, h₁, hb₁⟩ := hwrite (htonpid q.id) hb (BigEndian.length_encode _ _)
          cases ok₁ with
          | false =>
              exact ⟨b₁, false, by simp only [packetIdWrite, hu, Bool.false_eq_true, if_false, h₁],
                fun h => by cases h⟩
          | true =>
              cases longForm with
              | true =>
                  obtain ⟨b₂, ok₂, h₂, -⟩ := hwrite (htontime q.time) hb₁ (BigEndian.length_encode _ _)
                  exact ⟨b₂, ok₂, by simp only [packetIdWrite, hu, Bool.false_eq_true, if_false, h₁,
                    if_true, h₂, Option.map_some], fun _ => rfl⟩
              | false =>
                  exact ⟨b₁, true, by simp only [packetIdWrite, hu, Bool.false_eq_true, if_false, h₁],
                    fun _ => rfl⟩

@[simp] theorem length_htonpid (id : UInt64) : (htonpid id).length = 4 := BigEndian.length_encode _ _

@[simp] theorem length_htontime (time : Int) : (htontime time).length = 4 :=
  BigEndian.length_encode _ _

/-- The long form at the end of a buffer with room for its eight bytes: a successful update
appends the id, then the time, of the new state. -/
theorem packetIdWrite_append {buf : Buffer} (hb : BufBounded buf) {p q : PacketIdSend} {now : Int}
    (hu : packetIdSendUpdate p true now = (q, true))
    (hroom : buf.offset + buf.len + 8 ≤ buf.capacity) :
    packetIdWrite p buf true false now =
      some (q, (buf.append (htonpid q.id)).append (htontime q.time), true) := by
  have h₁ := @BufBounded.bufWrite_eq_append buf (htonpid q.id) hb (by simp [bufSizeMax])
    (by simp; omega)
  have hb₁ := @BufBounded.append_bounded buf (htonpid q.id) hb (by simp; omega)
  have h₂ := @BufBounded.bufWrite_eq_append _ (htontime q.time) hb₁ (by simp [bufSizeMax])
    (by simp; omega)
  rw [length_htonpid] at h₁
  rw [length_htontime] at h₂
  simp only [packetIdWrite, hu, Bool.false_eq_true, if_false, h₁, if_true, h₂, Option.map_some]

/-- The long form in front of a buffer with room for its eight bytes: a successful update
prepends the time, then the id, of the new state. -/
theorem packetIdWrite_prepend {buf : Buffer} (hb : BufBounded buf) {p q : PacketIdSend}
    {now : Int} (hu : packetIdSendUpdate p true now = (q, true)) (hroom : 8 ≤ buf.offset) :
    packetIdWrite p buf true true now =
      some (q, (buf.prepend (htontime q.time)).prepend (htonpid q.id), true) := by
  have h₁ := @BufBounded.bufWritePrepend_eq_prepend buf (htontime q.time) hb (by simp; omega)
  have hb₁ := @BufBounded.prepend_bounded buf (htontime q.time) hb (by simp; omega)
  have h₂ := @BufBounded.bufWritePrepend_eq_prepend _ (htonpid q.id) hb₁ (by simp; omega)
  rw [length_htontime, Nat.cast_ofNat] at h₁
  rw [length_htonpid, Nat.cast_ofNat] at h₂
  simp only [packetIdWrite, hu, if_true, h₁, h₂, Option.map_some]

/-- A successful long-form write at the end of a bounded buffer had a successful update and room
for both words, and appended them. -/
theorem packetIdWrite_true {buf buf' : Buffer} (hb : BufBounded buf) {p q : PacketIdSend}
    {now : Int} (h : packetIdWrite p buf true false now = some (q, buf', true)) :
    packetIdSendUpdate p true now = (q, true) ∧ buf.offset + buf.len + 8 ≤ buf.capacity ∧
      buf' = (buf.append (htonpid q.id)).append (htontime q.time) := by
  obtain ⟨b₁, ok, hw, hok⟩ := packetIdWrite_of_bounded hb p true false now
  obtain ⟨hq, rfl, rfl⟩ : (packetIdSendUpdate p true now).1 = q ∧ b₁ = buf' ∧ ok = true := by
    rw [hw] at h
    simpa using h
  have hu : packetIdSendUpdate p true now = (q, true) := Prod.ext hq (hok rfl)
  by_cases hroom : buf.offset + buf.len + 8 ≤ buf.capacity
  · rw [packetIdWrite_append hb hu hroom] at hw
    simp only [Option.some.injEq, Prod.mk.injEq, and_true] at hw
    exact ⟨hu, hroom, hw.2.symm⟩
  · -- the id or the time does not fit, and that write returns false
    exfalso
    rw [packetIdWrite, hu] at hw
    simp only [Bool.false_eq_true, if_false] at hw
    by_cases h4 : buf.offset + buf.len + 4 ≤ buf.capacity
    · have h₁ := @BufBounded.bufWrite_eq_append buf (htonpid q.id) hb (by simp [bufSizeMax])
        (by simp; omega)
      have hb₁ := @BufBounded.append_bounded buf (htonpid q.id) hb (by simp; omega)
      have h₂ := hb₁.bufWrite_eq (htontime q.time)
      rw [length_htonpid] at h₁
      rw [length_htontime, if_neg (by simp; omega)] at h₂
      rw [h₁] at hw
      simp [h₂] at hw
    · have h₁ := hb.bufWrite_eq (htonpid q.id)
      rw [length_htonpid, if_neg (by simp; omega)] at h₁
      simp [h₁] at hw

/-- The order in which a run's `(time, id)` pairs increase. -/
def pairKey (e : Int × UInt64) : Lex (Int × Nat) := toLex (e.1, e.2.toNat)

theorem pairKey_le_iff {a b : Int × UInt64} :
    pairKey a ≤ pairKey b ↔ a.1 < b.1 ∨ a.1 = b.1 ∧ a.2.toNat ≤ b.2.toNat :=
  Prod.Lex.toLex_le_toLex

theorem pairKey_lt_iff {a b : Int × UInt64} :
    pairKey a < pairKey b ↔ a.1 < b.1 ∨ a.1 = b.1 ∧ a.2.toNat < b.2.toNat :=
  Prod.Lex.toLex_lt_toLex

/-- What a run of writes keeps, with `last` the `(time, id)` of the last call that returned true
and `t` the time of the last call. -/
structure SendInv (p : PacketIdSend) (last : Option (Int × UInt64)) (t : Int) : Prop where
  id_le : p.id.toNat ≤ 2 ^ 32 - 1
  last_le : ∀ e ∈ last, pairKey e ≤ pairKey (p.time, p.id)
  time_zero : ∀ e ∈ last, p.time = 0 → 0 ≤ t

/-- One update keeps the invariant; a successful one leaves a pair above the last one. -/
theorem sendInv_packetIdSendUpdate {p : PacketIdSend} {last : Option (Int × UInt64)} {t : Int}
    (h : SendInv p last t) (longForm : Bool) {now : Int} (hnow : t ≤ now) :
    SendInv (packetIdSendUpdate p longForm now).1 last now ∧
      ((packetIdSendUpdate p longForm now).2 = true →
        (∀ e ∈ last, pairKey e < pairKey ((packetIdSendUpdate p longForm now).1.time,
          (packetIdSendUpdate p longForm now).1.id)) ∧
        SendInv (packetIdSendUpdate p longForm now).1
          (some ((packetIdSendUpdate p longForm now).1.time,
            (packetIdSendUpdate p longForm now).1.id)) now) := by
  have hlatch : ∀ e ∈ last, pairKey e ≤ pairKey (if p.time = 0 then now else p.time, p.id) := by
    intro e he
    have hle := pairKey_le_iff.mp (h.last_le e he)
    have hz := h.time_zero e he
    rw [pairKey_le_iff]
    split_ifs with h0
    · have := hz h0
      rw [h0] at hle
      dsimp only at hle ⊢
      omega
    · exact hle
  have hzero : (if p.time = 0 then now else p.time) = 0 → 0 ≤ now := by
    split_ifs with h0 <;> omega
  have hid := h.id_le
  rcases packetIdSendUpdate_cases p longForm now with ⟨-, -, hu⟩ | ⟨-, -, hlt, hu⟩ | ⟨hm, hu⟩ <;>
    rw [hu]
  · exact ⟨⟨hid, hlatch, fun _ _ => hzero⟩, fun hok => by cases hok⟩
  · have hgt : ∀ e ∈ last, pairKey e < pairKey (now, 1) := by
      intro e he
      have hle := pairKey_le_iff.mp (hlatch e he)
      rw [pairKey_lt_iff]
      dsimp only at hle ⊢
      omega
    have hinv : ∀ l : Option (Int × UInt64), (∀ e ∈ l, pairKey e ≤ pairKey (now, 1)) →
        SendInv ⟨1, now⟩ l now :=
      fun l hl => ⟨by dsimp only; decide, hl, fun _ _ h0 => by dsimp only at h0; omega⟩
    exact ⟨hinv last fun e he => (hgt e he).le,
      fun _ => ⟨hgt, hinv _ fun e he => by cases he; exact le_rfl⟩⟩
  · have hne : p.id.toNat ≠ 2 ^ 32 - 1 := fun he => hm (UInt64.toNat_inj.mp he)
    have hsucc : (p.id + 1).toNat = p.id.toNat + 1 := UInt64.toNat_add_one_of_lt (by omega)
    have hgt : ∀ e ∈ last, pairKey e < pairKey (if p.time = 0 then now else p.time, p.id + 1) := by
      intro e he
      have hle := pairKey_le_iff.mp (hlatch e he)
      rw [pairKey_lt_iff, hsucc]
      dsimp only at hle ⊢
      omega
    have hinv : ∀ l : Option (Int × UInt64), (∀ e ∈ l, pairKey e ≤
        pairKey (if p.time = 0 then now else p.time, p.id + 1)) →
        SendInv ⟨p.id + 1, if p.time = 0 then now else p.time⟩ l now :=
      fun l hl => ⟨by dsimp only; omega, hl, fun _ _ => hzero⟩
    exact ⟨hinv last fun e he => (hgt e he).le,
      fun _ => ⟨hgt, hinv _ fun e he => by cases he; exact le_rfl⟩⟩

/-- **A run of writes.** From a state with the invariant, with every buffer bounded and the
calls at times from `t` on, non-decreasing, the run is defined, its pairs increase, lie above
`last` and carry ids in `[1, 2^32 - 1]`. -/
theorem packetIdWriteRun_increasing (longForm : Bool) {calls : List (Int × Buffer × Bool)}
    (hbuf : ∀ c ∈ calls, BufBounded c.2.1) (hsorted : (calls.map Prod.fst).Pairwise (· ≤ ·)) :
    ∀ {p : PacketIdSend} {last : Option (Int × UInt64)} {t : Int}, SendInv p last t →
      (∀ c ∈ calls, t ≤ c.1) →
      ∃ q pairs, packetIdWriteRun longForm p calls = some (q, pairs) ∧
        pairs.Pairwise (fun a b => pairKey a < pairKey b) ∧
        ∀ a ∈ pairs, (∀ e ∈ last, pairKey e < pairKey a) ∧ 1 ≤ a.2.toNat ∧ a.2.toNat ≤ 2 ^ 32 - 1 := by
  induction calls with
  | nil => exact fun _ _ => ⟨_, [], rfl, List.Pairwise.nil, by simp⟩
  | cons c calls ih =>
      obtain ⟨now, buf, prepend⟩ := c
      intro p last t hinv ht
      rw [List.map_cons, List.pairwise_cons] at hsorted
      have hnext : ∀ c ∈ calls, now ≤ c.1 := fun c hc => hsorted.1 _ (List.mem_map_of_mem hc)
      obtain ⟨buf', ok, hw, hok⟩ :=
        packetIdWrite_of_bounded (hbuf _ List.mem_cons_self) p longForm prepend now
      obtain ⟨hstep, hsucc⟩ := sendInv_packetIdSendUpdate hinv longForm (ht _ List.mem_cons_self)
      cases ok with
      | false =>
          obtain ⟨q, pairs, hrun, hpw, hmem⟩ :=
            ih (fun c hc => hbuf c (List.mem_cons_of_mem _ hc)) hsorted.2 hstep hnext
          exact ⟨q, pairs, by simp only [packetIdWriteRun, hw, Option.bind_some, hrun,
            Option.map_some, Bool.false_eq_true, if_false], hpw, hmem⟩
      | true =>
          obtain ⟨hgt, hstep'⟩ := hsucc (hok rfl)
          obtain ⟨q, pairs, hrun, hpw, hmem⟩ :=
            ih (fun c hc => hbuf c (List.mem_cons_of_mem _ hc)) hsorted.2 hstep' hnext
          have hbound := id_packetIdSendUpdate hinv.id_le (hok rfl)
          refine ⟨q, ((packetIdSendUpdate p longForm now).1.time,
            (packetIdSendUpdate p longForm now).1.id) :: pairs, by simp only [packetIdWriteRun, hw, Option.bind_some, hrun,
            Option.map_some, if_true], List.pairwise_cons.mpr ⟨fun a ha => (hmem a ha).1 _ rfl, hpw⟩,
            fun a ha => ?_⟩
          rcases List.mem_cons.mp ha with rfl | ha
          · exact ⟨hgt, hbound⟩
          · exact ⟨fun e he => (hgt e he).trans ((hmem a ha).1 _ rfl), (hmem a ha).2⟩

/-- In the short form an update never lowers the id and a successful one adds one. -/
theorem id_packetIdSendUpdate_short {p : PacketIdSend} (hid : p.id.toNat ≤ 2 ^ 32 - 1) (now : Int) :
    (packetIdSendUpdate p false now).1.id.toNat ≤ 2 ^ 32 - 1 ∧
      p.id.toNat ≤ (packetIdSendUpdate p false now).1.id.toNat ∧
      ((packetIdSendUpdate p false now).2 = true →
        (packetIdSendUpdate p false now).1.id.toNat = p.id.toNat + 1) := by
  rcases packetIdSendUpdate_cases p false now with ⟨-, -, hu⟩ | ⟨-, hl, -⟩ | ⟨hm, hu⟩
  · rw [hu]
    exact ⟨hid, le_rfl, fun h => by cases h⟩
  · cases hl
  · have hne : p.id.toNat ≠ 2 ^ 32 - 1 := fun he => hm (UInt64.toNat_inj.mp he)
    have hsucc : (p.id + 1).toNat = p.id.toNat + 1 := UInt64.toNat_add_one_of_lt (by omega)
    rw [hu]
    dsimp only
    rw [hsucc]
    omega

/-- In the short form the ids of a run's pairs increase and lie above the starting id. -/
theorem packetIdWriteRun_short_increasing {calls : List (Int × Buffer × Bool)}
    (hbuf : ∀ c ∈ calls, BufBounded c.2.1) :
    ∀ {p : PacketIdSend}, p.id.toNat ≤ 2 ^ 32 - 1 →
      ∃ q pairs, packetIdWriteRun false p calls = some (q, pairs) ∧
        pairs.Pairwise (fun a b => a.2 < b.2) ∧ ∀ a ∈ pairs, p.id < a.2 := by
  induction calls with
  | nil => exact fun _ => ⟨_, [], rfl, List.Pairwise.nil, by simp⟩
  | cons c calls ih =>
      obtain ⟨now, buf, prepend⟩ := c
      intro p hid
      obtain ⟨buf', ok, hw, hok⟩ :=
        packetIdWrite_of_bounded (hbuf _ List.mem_cons_self) p false prepend now
      obtain ⟨hle, hmono, hsucc⟩ := id_packetIdSendUpdate_short hid now
      obtain ⟨q, pairs, hrun, hpw, hmem⟩ :=
        ih (fun c hc => hbuf c (List.mem_cons_of_mem _ hc)) hle
      cases ok with
      | false =>
          refine ⟨q, pairs, by simp only [packetIdWriteRun, hw, Option.bind_some, hrun,
            Option.map_some, Bool.false_eq_true, if_false], hpw, fun a ha => ?_⟩
          have := hmem a ha
          rw [UInt64.lt_iff_toNat_lt] at this ⊢
          omega
      | true =>
          have hinc := hsucc (hok rfl)
          refine ⟨q, ((packetIdSendUpdate p false now).1.time,
            (packetIdSendUpdate p false now).1.id) :: pairs, by simp only [packetIdWriteRun, hw, Option.bind_some, hrun,
            Option.map_some, if_true], List.pairwise_cons.mpr ⟨fun a ha => hmem a ha, hpw⟩,
            fun a ha => ?_⟩
          rcases List.mem_cons.mp ha with rfl | ha
          · rw [UInt64.lt_iff_toNat_lt, hinc]
            omega
          · have := hmem a ha
            rw [UInt64.lt_iff_toNat_lt] at this ⊢
            omega

/-- In the short form, once the id is `PACKET_ID_MAX` every later write fails. -/
theorem packetIdWriteRun_short_at_max (calls : List (Int × Buffer × Bool)) :
    ∀ {p : PacketIdSend}, p.id = packetIdMax →
      ∃ q, packetIdWriteRun false p calls = some (q, []) ∧ q.id = packetIdMax := by
  induction calls with
  | nil => exact fun hp => ⟨_, rfl, hp⟩
  | cons c calls ih =>
      obtain ⟨now, buf, prepend⟩ := c
      intro p hp
      have hu : packetIdSendUpdate p false now =
          (⟨p.id, if p.time = 0 then now else p.time⟩, false) := by
        rcases packetIdSendUpdate_cases p false now with ⟨-, -, hu⟩ | ⟨-, hl, -⟩ | ⟨hm, -⟩
        · exact hu
        · cases hl
        · exact absurd hp hm
      obtain ⟨q, hrun, hq⟩ := ih (p := ⟨p.id, if p.time = 0 then now else p.time⟩) hp
      exact ⟨q, by simp only [packetIdWriteRun, packetIdWrite, hu, Option.bind_some, hrun,
        Option.map_some, Bool.false_eq_true, if_false], hq⟩

theorem sendInv_resetPacketIdSend (t : Int) : SendInv resetPacketIdSend none t :=
  ⟨by decide, (fun _ he => by cases he), (fun _ he => by cases he)⟩

/-- **Send-side nonces.** From the reset state, over writes with one `long_form` into bounded
buffers at non-decreasing times, the `(time, id)` pairs of the successful writes are distinct and
carry ids in `[1, 2^32 - 1]`; in the short form the ids increase and a state at `PACKET_ID_MAX`
never writes again, and an id of 1 after another pair comes with a later time. -/
theorem packet_id_write_nonces_unique (longForm : Bool) (calls : List (Int × Buffer × Bool))
    (hbuf : ∀ c ∈ calls, BufBounded c.2.1) (hnow : (calls.map Prod.fst).Pairwise (· ≤ ·)) :
    ∃ p pairs, packetIdWriteRun longForm resetPacketIdSend calls = some (p, pairs) ∧
      pairs.Nodup ∧
      (∀ e ∈ pairs, 1 ≤ e.2.toNat ∧ e.2.toNat ≤ 2 ^ 32 - 1) ∧
      (longForm = false → pairs.Pairwise (fun a b => a.2 < b.2)) ∧
      (longForm = false → ∀ q : PacketIdSend, q.id = packetIdMax → ∀ rest,
        ∃ q', packetIdWriteRun false q rest = some (q', []) ∧ q'.id = packetIdMax) ∧
      pairs.IsChain (fun a b => b.2 = 1 → a.1 < b.1) := by
  obtain ⟨p, pairs, hrun, hpw, hmem⟩ : ∃ p pairs,
      packetIdWriteRun longForm resetPacketIdSend calls = some (p, pairs) ∧
        pairs.Pairwise (fun a b => pairKey a < pairKey b) ∧
        ∀ a ∈ pairs, (∀ e ∈ (none : Option (Int × UInt64)), pairKey e < pairKey a) ∧
          1 ≤ a.2.toNat ∧ a.2.toNat ≤ 2 ^ 32 - 1 := by
    cases calls with
    | nil => exact ⟨_, [], rfl, List.Pairwise.nil, by simp⟩
    | cons c calls =>
        have hsorted := hnow
        rw [List.map_cons, List.pairwise_cons] at hsorted
        refine packetIdWriteRun_increasing longForm hbuf hnow (sendInv_resetPacketIdSend c.1)
          fun d hd => ?_
        rcases List.mem_cons.mp hd with rfl | hd
        · exact le_rfl
        · exact hsorted.1 _ (List.mem_map_of_mem hd)
  have hnodup : pairs.Nodup := hpw.imp fun h hab => by subst hab; exact lt_irrefl _ h
  refine ⟨p, pairs, hrun, hnodup, fun e he => (hmem e he).2,
    fun hl => ?_, fun _ q hq rest => packetIdWriteRun_short_at_max rest hq, ?_⟩
  · subst hl
    obtain ⟨q, pairs', hrun', hpw', -⟩ :=
      packetIdWriteRun_short_increasing hbuf (p := resetPacketIdSend) (by decide)
    rw [hrun] at hrun'
    cases hrun'
    exact hpw'
  · refine (hpw.imp_of_mem fun ha _ hlt hb1 => ?_).isChain
    have h1 := (hmem _ ha).2.1
    rw [pairKey_lt_iff, hb1, UInt64.toNat_one] at hlt
    omega

theorem packet_id_write_nonces_unique_two_writes :
    ∃ p pairs, packetIdWriteRun true resetPacketIdSend
        [(5, ⟨16, 8, 0, some (List.replicate 16 0)⟩, false),
          (7, ⟨16, 8, 0, some (List.replicate 16 0)⟩, true)] = some (p, pairs) ∧
      pairs.Nodup ∧
      (∀ e ∈ pairs, 1 ≤ e.2.toNat ∧ e.2.toNat ≤ 2 ^ 32 - 1) ∧
      (true = false → pairs.Pairwise (fun a b => a.2 < b.2)) ∧
      (true = false → ∀ q : PacketIdSend, q.id = packetIdMax → ∀ rest,
        ∃ q', packetIdWriteRun false q rest = some (q', []) ∧ q'.id = packetIdMax) ∧
      pairs.IsChain (fun a b => b.2 = 1 → a.1 < b.1) :=
  packet_id_write_nonces_unique true _
    (fun c hc => by
      simp only [List.mem_cons, List.not_mem_nil, or_false] at hc
      rcases hc with rfl | rfl <;>
        exact ⟨⟨rfl, by decide, by decide, by decide, by decide, by decide⟩, by decide⟩)
    (by decide)

end OpenVpn
