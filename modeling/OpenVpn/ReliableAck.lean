import OpenVpn.BufferSafety

/-! The acknowledgement record of the control channel, as `reliable_ack_parse` in `reliable.c`
reads it from a buffer: a count byte, that many 32-bit packet ids in network order, and, when the
count is not zero, the remote session id. Over a bounded buffer the parse is a cursor over the
buffer's content; it succeeds exactly on contents that hold a whole record of at most
`RELIABLE_ACK_SIZE` ids. -/

namespace OpenVpn

-- `RELIABLE_ACK_SIZE`; `SID_SIZE`
def reliableAckSize : Nat := 8

def sidSize : Nat := 8

/-- The loop of `reliable_ack_parse` over the packet ids still to read: the buffer, the ids of
`ack`, and whether the loop ran to its end. -/
def reliableAckParseLoop (buf : Buffer) (acks : List UInt32) :
    Nat → Option (Buffer × List UInt32 × Bool)
  | 0 => some (buf, acks, true)
  | n + 1 => do
      let (buf, netPid) ← bufRead buf 4
      match netPid with
      | none => some (buf, acks, false)
      | some bytes =>
          if acks.length ≥ reliableAckSize then some (buf, acks, false)
          else reliableAckParseLoop buf (acks ++ [UInt32.ofNat (BigEndian.decode bytes)]) n

/-- `reliable_ack_parse`: the buffer, the ids of `ack`, the remote session id and the result. The
session id is overwritten only by a successful `session_id_read`. -/
def reliableAckParse (buf : Buffer) (sessionIdRemote : List UInt8) :
    Option (Buffer × List UInt32 × List UInt8 × Bool) := do
  let (buf, count) ← bufRead buf 1
  match count with
  | none => some (buf, [], sessionIdRemote, false)
  | some countBytes =>
      let count := BigEndian.decode countBytes
      let (buf, acks, ok) ← reliableAckParseLoop buf [] count
      if !ok then some (buf, acks, sessionIdRemote, false)
      else if count ≠ 0 then do
        let (buf, sid) ← bufRead buf sidSize
        match sid with
        | none => some (buf, acks, sessionIdRemote, false)
        | some sid => some (buf, acks, sid, true)
      else some (buf, acks, sessionIdRemote, true)

/-- The loop reads `4 n` bytes; it ends well exactly when they are there and `ack` has room for
`n` more ids. -/
theorem reliableAckParseLoop_spec {buf : Buffer} (hb : BufBounded buf) (acks : List UInt32)
    (hacks : acks.length ≤ reliableAckSize) (n : Nat) :
    ∃ buf' acks' ok, reliableAckParseLoop buf acks n = some (buf', acks', ok) ∧ BufBounded buf' ∧
      (ok = true ↔ 4 * n ≤ buf.content.length ∧ acks.length + n ≤ reliableAckSize) ∧
      (ok = true → buf'.content = buf.content.drop (4 * n)) := by
  induction n generalizing buf acks with
  | zero => exact ⟨buf, acks, true, rfl, hb, by simpa using hacks, by simp⟩
  | succ n ih =>
      obtain ⟨b₁, hread, hb₁, hcontent⟩ := hb.bufRead_cursor 4
      unfold reliableAckParseLoop
      rw [show ((4 : Nat) : Int) = 4 from rfl] at hread
      rw [hread]
      simp only [Option.bind_eq_bind, Option.bind_some]
      by_cases h4 : 4 ≤ buf.content.length
      · rw [if_pos h4] at hcontent ⊢
        dsimp only
        by_cases hfull : acks.length ≥ reliableAckSize
        · rw [if_pos hfull]
          exact ⟨b₁, acks, false, rfl, hb₁, by simp; omega, by simp⟩
        · rw [if_neg hfull]
          obtain ⟨buf', acks', ok, hloop, hb', hok, hrest⟩ :=
            ih hb₁ (acks ++ [UInt32.ofNat (BigEndian.decode (buf.content.take 4))]) (by simp; omega)
          refine ⟨buf', acks', ok, hloop, hb', ?_, fun h => ?_⟩
          · rw [hok, hcontent, List.length_drop, List.length_append, List.length_singleton]
            omega
          · rw [hrest h, hcontent, List.drop_drop]
            congr 1
            omega
      · rw [if_neg h4]
        exact ⟨b₁, acks, false, rfl, hb₁, by simp; omega, by simp⟩

/-- What `reliable_ack_parse` accepts from a bounded buffer: a count byte `k`, `4 k` bytes of
packet ids, and the session id when `k ≠ 0`; at most `RELIABLE_ACK_SIZE` ids. On success the
session id is the eight bytes after the ids, or the one given when there are no ids. -/
theorem reliableAckParse_spec {buf : Buffer} (hb : BufBounded buf) (sessionIdRemote : List UInt8) :
    ∃ buf' acks sid ok, reliableAckParse buf sessionIdRemote = some (buf', acks, sid, ok) ∧
      BufBounded buf' ∧ (buf.content = [] → ok = false) ∧
      ∀ count rest, buf.content = count :: rest →
        (ok = true ↔ count.toNat ≤ reliableAckSize ∧
          4 * count.toNat + (if count = 0 then 0 else sidSize) ≤ rest.length) ∧
        (ok = true →
          sid = if count = 0 then sessionIdRemote else (rest.drop (4 * count.toNat)).take sidSize) := by
  obtain ⟨b₁, hread, hb₁, hcontent⟩ := hb.bufRead_cursor 1
  unfold reliableAckParse
  rw [show ((1 : Nat) : Int) = 1 from rfl] at hread
  rw [hread]
  simp only [Option.bind_eq_bind, Option.bind_some]
  cases hc : buf.content with
  | nil =>
      simp only [List.length_nil, if_false, show ¬(1 ≤ 0) by omega]
      exact ⟨b₁, [], sessionIdRemote, false, rfl, hb₁, fun _ => rfl, fun _ _ h => by cases h⟩
  | cons count rest =>
      rw [hc] at hcontent
      simp only [List.length_cons, Nat.le_add_left, if_true, List.take_succ_cons, List.take_zero,
        List.drop_succ_cons, List.drop_zero] at hcontent ⊢
      have hcount : BigEndian.decode [count] = count.toNat := by simp [BigEndian.decode]
      rw [hcount]
      obtain ⟨b₂, acks, ok, hloop, hb₂, hok, hrest⟩ := reliableAckParseLoop_spec hb₁ [] (by simp) count.toNat
      rw [hloop]
      simp only [Option.bind_some, List.length_nil, Nat.zero_add, hcontent] at hok hrest ⊢
      have hzero : count = 0 ↔ count.toNat = 0 := by
        constructor
        · rintro rfl
          rfl
        · intro h
          exact UInt8.toNat_inj.mp h
      -- the loop over the ids failed
      cases ok with
      | false =>
          refine ⟨b₂, acks, sessionIdRemote, false, rfl, hb₂, fun h => absurd h (List.cons_ne_nil _ _), ?_⟩
          rintro c r h
          obtain ⟨rfl, rfl⟩ := List.cons.inj h
          refine ⟨?_, fun h => absurd h Bool.false_ne_true⟩
          simp only [Bool.false_eq_true, false_iff, not_and] at hok ⊢
          intro hle hlen
          exact hok (by split_ifs at hlen <;> omega) hle
      | true =>
      obtain ⟨hlen, hle⟩ := hok.mp rfl
      simp only [Bool.not_true, Bool.false_eq_true, if_false]
      by_cases hz : count.toNat = 0
      · -- no ids: the session id is not read
        rw [if_neg (not_not_intro hz)]
        refine ⟨b₂, acks, sessionIdRemote, true, rfl, hb₂, fun h => absurd h (List.cons_ne_nil _ _), ?_⟩
        rintro c r h
        obtain ⟨rfl, rfl⟩ := List.cons.inj h
        have hc0 : count = 0 := hzero.mpr hz
        simp only [hc0, if_true, true_iff, forall_const, and_true]
        exact ⟨by simp [reliableAckSize], by simp⟩
      · rw [if_pos hz]
        obtain ⟨b₃, hread₃, hb₃, -⟩ := hb₂.bufRead_cursor sidSize
        rw [hread₃, hrest rfl]
        have hc0 : ¬count = 0 := fun h => hz (hzero.mp h)
        by_cases hsid : sidSize ≤ (rest.drop (4 * count.toNat)).length
        · rw [if_pos hsid]
          refine ⟨b₃, acks, _, true, rfl, hb₃, fun h => absurd h (List.cons_ne_nil _ _), ?_⟩
          rintro c r h
          obtain ⟨rfl, rfl⟩ := List.cons.inj h
          rw [List.length_drop] at hsid
          simp only [hc0, if_false, true_iff, forall_const]
          exact ⟨⟨hle, by omega⟩, trivial⟩
        · rw [if_neg hsid]
          refine ⟨b₃, acks, sessionIdRemote, false, rfl, hb₃, fun h => absurd h (List.cons_ne_nil _ _), ?_⟩
          rintro c r h
          obtain ⟨rfl, rfl⟩ := List.cons.inj h
          rw [List.length_drop] at hsid
          simp only [hc0, if_false, Bool.false_eq_true, false_iff, not_and, IsEmpty.forall_iff,
            and_true]
          intro _
          omega

end OpenVpn
