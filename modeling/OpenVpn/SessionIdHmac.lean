import OpenVpn.ReliableAck

/-! The stateless HMAC cookie of `ssl_pkt.c`. A server answers a client's first packet with a
session id computed by `calculate_session_id_hmac` from the time, the client's address and the
client's session id, and keeps no state; `check_session_id_hmac` is meant to accept a later packet
only if its acknowledgement record echoes that id for one of four adjacent time quanta.
`memcmp_constant_time` returns zero exactly on equal bytes, and the loop returns true when it is
nonzero: the check accepts a packet exactly when its echoed id differs from one of the four ids
the server would issue. The HMAC is a parameter; nothing is assumed of it. -/

namespace OpenVpn

/-- `struct openvpn_sockaddr`, by address family: the bytes of its `sockaddr_in` or
`sockaddr_in6`, or another family. -/
inductive OpenvpnSockaddr
  | in4 (addr : List UInt8)
  | in6 (addr : List UInt8)
  | other
  deriving DecidableEq, Repr

/-- The bytes of the address that `calculate_session_id_hmac` hashes. -/
def OpenvpnSockaddr.hmacInput : OpenvpnSockaddr → List UInt8
  | .in4 addr => addr
  | .in6 addr => addr
  | .other => []

/-- `struct tls_pre_decrypt_state`, without its wrapping context. -/
structure TlsPreDecryptState where
  newbuf : Buffer
  peerSessionId : List UInt8
  serverSessionId : List UInt8
  deriving DecidableEq, Repr

/-- `memcmp_constant_time` as `crypto_mbedtls.c` defines it: the OR of the XORs of the first
`size` byte pairs. -/
def memcmpConstantTime (a b : List UInt8) (size : Nat) : UInt8 :=
  (List.range size).foldl (fun diff i => diff ||| (a.getD i 0 ^^^ b.getD i 0)) 0

/-- `ntohl(now / ((handwindow + 1) / 2) + offset)`, the time quantum of the cookie, as the four
bytes that are hashed. -/
def sessionIdTime (now handwindow offset : Int) : List UInt8 :=
  BigEndian.encode 4 ((now.tdiv ((handwindow + 1).tdiv 2) + offset) % 2 ^ 32).toNat

/-- `calculate_session_id_hmac`, with `hmac` the HMAC-SHA256 under the server's key: the first
`SID_SIZE` bytes of the HMAC of the time quantum, the address and the client's session id. -/
def calculateSessionIdHmac (hmac : List UInt8 → List UInt8) (now : Int) (clientSid : List UInt8)
    (fromAddr : OpenvpnSockaddr) (handwindow offset : Int) : List UInt8 :=
  (hmac (sessionIdTime now handwindow offset ++ fromAddr.hmacInput ++ clientSid)).take sidSize

/-- The offsets of the loop of `check_session_id_hmac`, `-2 ≤ offset ≤ 1`. -/
def sessionIdOffsets : List Int := [-2, -1, 0, 1]

/-- `check_session_id_hmac`: the state, whose server session id `reliable_ack_parse` may have
overwritten, and the result. -/
def checkSessionIdHmac (hmac : List UInt8 → List UInt8) (now : Int) (state : TlsPreDecryptState)
    (fromAddr : Option OpenvpnSockaddr) (handwindow : Int) : Option (TlsPreDecryptState × Bool) :=
  match fromAddr with
  | none => some (state, false)
  | some fromAddr => do
      let (_, _, sid, ok) ← reliableAckParse state.newbuf state.serverSessionId
      let state := { state with serverSessionId := sid }
      if !ok then some (state, false)
      else
        some (state, sessionIdOffsets.any fun offset =>
          memcmpConstantTime (calculateSessionIdHmac hmac now state.peerSessionId fromAddr handwindow
            offset) state.serverSessionId sidSize != 0)

theorem foldl_or_eq_zero_iff (f : Nat → UInt8) (acc : UInt8) (n : Nat) :
    (List.range n).foldl (fun d i => d ||| f i) acc = 0 ↔ acc = 0 ∧ ∀ i < n, f i = 0 := by
  induction n with
  | zero => simp
  | succ n ih =>
      rw [List.range_succ, List.foldl_append, List.foldl_cons, List.foldl_nil,
        UInt8.or_eq_zero_iff, ih]
      constructor
      · rintro ⟨⟨hacc, hlt⟩, hn⟩
        refine ⟨hacc, fun i hi => ?_⟩
        rcases Nat.lt_succ_iff_lt_or_eq.mp hi with hi | rfl
        · exact hlt i hi
        · exact hn
      · rintro ⟨hacc, hall⟩
        exact ⟨⟨hacc, fun i hi => hall i (by omega)⟩, hall n (by omega)⟩

/-- `memcmp_constant_time` is zero exactly on equal bytes. -/
theorem memcmpConstantTime_eq_zero_iff {a b : List UInt8} {size : Nat} (ha : size ≤ a.length)
    (hb : size ≤ b.length) : memcmpConstantTime a b size = 0 ↔ a.take size = b.take size := by
  rw [memcmpConstantTime, foldl_or_eq_zero_iff]
  simp only [true_and, UInt8.xor_eq_zero_iff]
  constructor
  · intro h
    apply List.ext_getElem (by simp; omega)
    intro i h₁ h₂
    simp only [List.getElem_take]
    have hi : i < size := by simp at h₁; omega
    have := h i hi
    rwa [List.getD_eq_getElem _ _ (by omega), List.getD_eq_getElem _ _ (by omega)] at this
  · intro h i hi
    have := congrArg (fun l => l.getD i 0) h
    simpa [List.getD_eq_getElem?_getD, List.getElem?_take, hi] using this

theorem length_calculateSessionIdHmac {hmac : List UInt8 → List UInt8}
    (hhmac : ∀ x, sidSize ≤ (hmac x).length) (now : Int) (clientSid : List UInt8)
    (fromAddr : OpenvpnSockaddr) (handwindow offset : Int) :
    (calculateSessionIdHmac hmac now clientSid fromAddr handwindow offset).length = sidSize := by
  rw [calculateSessionIdHmac, List.length_take, min_eq_left (hhmac _)]

/-- A successful parse leaves a whole session id: the one read, or the one already there when the
record holds no ids. -/
theorem length_sid_of_reliableAckParse {buf buf' : Buffer} (hb : BufBounded buf)
    {sessionIdRemote sid : List UInt8} {acks : List UInt32}
    (hsid : sessionIdRemote.length = sidSize)
    (h : reliableAckParse buf sessionIdRemote = some (buf', acks, sid, true)) :
    sid.length = sidSize := by
  obtain ⟨_, _, _, _, hparse, -, hnil, hspec⟩ := reliableAckParse_spec hb sessionIdRemote
  rw [h] at hparse
  simp only [Option.some.injEq, Prod.mk.injEq] at hparse
  obtain ⟨rfl, rfl, rfl, rfl⟩ := hparse
  cases hc : buf.content with
  | nil => exact absurd (hnil hc) (by simp)
  | cons count rest =>
      obtain ⟨hiff, hsid'⟩ := hspec count rest hc
      obtain ⟨-, hlen⟩ := hiff.mp rfl
      rw [hsid' rfl]
      split_ifs with h0
      · exact hsid
      · rw [if_neg h0] at hlen
        rw [List.length_take, List.length_drop]
        omega

/-- On two whole session ids, `memcmp_constant_time` is nonzero exactly when they differ. -/
theorem memcmpConstantTime_ne_zero_iff {a b : List UInt8} (ha : a.length = sidSize)
    (hb : b.length = sidSize) : memcmpConstantTime a b sidSize ≠ 0 ↔ a ≠ b := by
  rw [Ne, memcmpConstantTime_eq_zero_iff ha.ge hb.ge, List.take_of_length_le ha.le,
    List.take_of_length_le hb.le]

/-- **The cookie check is inverted.** For a bounded packet buffer and a whole server session id,
`check_session_id_hmac` accepts exactly when the acknowledgement record parses and its session id
differs from one of the four cookies the server would issue. So once two of those cookies differ,
every packet whose record parses is accepted, whatever session id it echoes. -/
theorem check_session_id_hmac_accepts_mismatch (hmac : List UInt8 → List UInt8) (now : Int)
    (state : TlsPreDecryptState) (fromAddr : OpenvpnSockaddr) (handwindow : Int)
    (hb : BufBounded state.newbuf) (hhmac : ∀ x, sidSize ≤ (hmac x).length)
    (hsid : state.serverSessionId.length = sidSize) :
    ∃ state' ok, checkSessionIdHmac hmac now state (some fromAddr) handwindow = some (state', ok) ∧
      (ok = true ↔ ∃ buf acks sid,
        reliableAckParse state.newbuf state.serverSessionId = some (buf, acks, sid, true) ∧
        ∃ offset ∈ sessionIdOffsets,
          calculateSessionIdHmac hmac now state.peerSessionId fromAddr handwindow offset ≠ sid) ∧
      ((∃ o₁ ∈ sessionIdOffsets, ∃ o₂ ∈ sessionIdOffsets,
          calculateSessionIdHmac hmac now state.peerSessionId fromAddr handwindow o₁ ≠
            calculateSessionIdHmac hmac now state.peerSessionId fromAddr handwindow o₂) →
        (∃ buf acks sid,
          reliableAckParse state.newbuf state.serverSessionId = some (buf, acks, sid, true)) →
        ok = true) := by
  obtain ⟨buf, acks, sid, ok, hparse, -⟩ := reliableAckParse_spec hb state.serverSessionId
  have hlen := length_calculateSessionIdHmac hhmac now state.peerSessionId fromAddr handwindow
  unfold checkSessionIdHmac
  rw [hparse]
  simp only [Option.bind_eq_bind, Option.bind_some]
  cases ok with
  | false =>
      -- the parse failed: refused, and no successful parse exists to accept
      refine ⟨_, false, rfl, ?_, fun _ ⟨_, _, _, h⟩ => ?_⟩
      · simp only [Bool.false_eq_true, false_iff, not_exists, not_and]
        intro _ _ _ h
        simp at h
      · simp at h
  | true =>
      have hsidlen := length_sid_of_reliableAckParse hb hsid hparse
      -- the loop accepts at the first offset whose cookie differs from the echoed id
      have hany : (sessionIdOffsets.any fun offset =>
          memcmpConstantTime (calculateSessionIdHmac hmac now state.peerSessionId fromAddr handwindow
            offset) sid sidSize != 0) = true ↔ ∃ offset ∈ sessionIdOffsets,
              calculateSessionIdHmac hmac now state.peerSessionId fromAddr handwindow offset ≠ sid := by
        simp only [List.any_eq_true, bne_iff_ne, ne_eq]
        exact exists_congr fun offset => and_congr_right fun _ =>
          memcmpConstantTime_ne_zero_iff (hlen offset) hsidlen
      refine ⟨_, _, rfl, ?_, fun ⟨o₁, h₁, o₂, h₂, hne⟩ _ => hany.mpr ?_⟩
      · rw [hany]
        constructor
        · exact fun h => ⟨buf, acks, sid, rfl, h⟩
        · rintro ⟨_, _, _, h, hex⟩
          simp only [Option.some.injEq, Prod.mk.injEq] at h
          obtain ⟨-, -, rfl, -⟩ := h
          exact hex
      · -- the echoed id cannot equal two different cookies
        by_cases h₁sid : calculateSessionIdHmac hmac now state.peerSessionId fromAddr handwindow o₁ = sid
        · exact ⟨o₂, h₂, fun h₂sid => hne (h₁sid.trans h₂sid.symm)⟩
        · exact ⟨o₁, h₁, h₁sid⟩

theorem check_session_id_hmac_accepts_mismatch_random_id :
    ∃ state', checkSessionIdHmac (fun _ => List.replicate 32 0) 0
        ⟨⟨16, 0, 13, some [1, 0, 0, 0, 0, 1, 2, 3, 4, 5, 6, 7, 8, 0, 0, 0]⟩,
          [9, 9, 9, 9, 9, 9, 9, 9], List.replicate 8 0⟩
        (some (.in4 [2, 0, 4, 210, 10, 0, 0, 1])) 30 = some (state', true) ∧
      ∀ offset ∈ sessionIdOffsets,
        calculateSessionIdHmac (fun _ => List.replicate 32 0) 0 [9, 9, 9, 9, 9, 9, 9, 9]
          (.in4 [2, 0, 4, 210, 10, 0, 0, 1]) 30 offset ≠ [1, 2, 3, 4, 5, 6, 7, 8] := by
  have hb : BufBounded ⟨16, 0, 13, some [1, 0, 0, 0, 0, 1, 2, 3, 4, 5, 6, 7, 8, 0, 0, 0]⟩ :=
    ⟨⟨rfl, by decide, by decide, by decide, by decide, by decide⟩, by decide⟩
  have hparse : reliableAckParse ⟨16, 0, 13, some [1, 0, 0, 0, 0, 1, 2, 3, 4, 5, 6, 7, 8, 0, 0, 0]⟩
      (List.replicate 8 0) = some (⟨16, 13, 0, some [1, 0, 0, 0, 0, 1, 2, 3, 4, 5, 6, 7, 8, 0, 0, 0]⟩,
        [0], [1, 2, 3, 4, 5, 6, 7, 8], true) := by decide
  have hcookie : ∀ offset ∈ sessionIdOffsets,
      calculateSessionIdHmac (fun _ => List.replicate 32 0) 0 [9, 9, 9, 9, 9, 9, 9, 9]
        (.in4 [2, 0, 4, 210, 10, 0, 0, 1]) 30 offset ≠ [1, 2, 3, 4, 5, 6, 7, 8] := by
    intro offset _
    simp [calculateSessionIdHmac, sidSize]
  obtain ⟨state', ok, h, hiff, -⟩ := check_session_id_hmac_accepts_mismatch
    (fun _ => List.replicate 32 0) 0
    ⟨⟨16, 0, 13, some [1, 0, 0, 0, 0, 1, 2, 3, 4, 5, 6, 7, 8, 0, 0, 0]⟩,
      [9, 9, 9, 9, 9, 9, 9, 9], List.replicate 8 0⟩
    (.in4 [2, 0, 4, 210, 10, 0, 0, 1]) 30 hb (fun _ => by simp [sidSize]) (by decide)
  have hok : ok = true := hiff.mpr ⟨_, _, _, hparse, -2, by decide, hcookie (-2) (by decide)⟩
  exact ⟨state', hok ▸ h, hcookie⟩

/-! ### The time quantum

`calculate_session_id_hmac` divides the time by `(handwindow + 1) / 2`, with `handwindow` the
`int` that `positive_atoi` gives for `--hand-window`, anything in `[0, INT_MAX]`. -/

-- `INT_MAX`
def intMax : Int := 2 ^ 31 - 1

/-- `now / ((handwindow + 1) / 2) + offset` in the C types: `handwindow + 1` in `int`, the quotient
and the sum in `time_t`. It is `none` where C leaves the result undefined, at a signed overflow or
a division by zero. -/
def sessionIdSlot (now handwindow offset : Int) : Option Int :=
  if intMax < handwindow + 1 then none
  else
    let divisor := (handwindow + 1).tdiv 2
    if divisor = 0 ∨ (now = -2 ^ 63 ∧ divisor = -1) then none
    else
      let slot := now.tdiv divisor + offset
      if slot < -2 ^ 63 ∨ 2 ^ 63 ≤ slot then none else some slot

/-- Where the slot is defined, it is what the cookie hashes. -/
theorem sessionIdTime_of_slot {now handwindow offset slot : Int}
    (h : sessionIdSlot now handwindow offset = some slot) :
    sessionIdTime now handwindow offset = BigEndian.encode 4 (slot % 2 ^ 32).toNat := by
  dsimp only [sessionIdSlot] at h
  split_ifs at h
  cases h
  rfl

/-- Floor division moves by at most two over less than two quanta. -/
theorem ediv_le_ediv_add_two {d a b : Int} (hd : 0 < d) (hle : a ≤ b) (hlt : b < a + 2 * d) :
    a / d ≤ b / d ∧ b / d ≤ a / d + 2 := by
  refine ⟨Int.ediv_le_ediv hd hle, ?_⟩
  calc b / d ≤ (a + 2 * d) / d := Int.ediv_le_ediv hd hlt.le
    _ = a / d + 2 := Int.add_mul_ediv_right a 2 hd.ne'

/-- Two nonnegative numbers less than two quanta in total are at most one quantum in total. -/
theorem ediv_add_ediv_le_one {d a b : Int} (hd : 0 < d) (hlt : a + b < 2 * d) :
    a / d + b / d ≤ 1 := by
  have hsum : a / d + b / d ≤ (a + b) / d := by
    rw [Int.le_ediv_iff_mul_le hd, Int.add_mul]
    exact Int.add_le_add (Int.ediv_mul_le a hd.ne') (Int.ediv_mul_le b hd.ne')
  have htwo : (a + b) / d < 2 := (Int.ediv_lt_iff_lt_mul hd).mpr (by omega)
  omega

/-- Truncating division moves by at most two over less than two quanta: the quantum around zero
is wider, never narrower. -/
theorem tdiv_le_tdiv_add_two {d t t' : Int} (hd : 0 < d) (hle : t ≤ t') (hlt : t' < t + 2 * d) :
    t.tdiv d ≤ t'.tdiv d ∧ t'.tdiv d ≤ t.tdiv d + 2 := by
  have hneg : ∀ x : Int, x < 0 → x.tdiv d = -((-x) / d) := fun x hx => by
    rw [← Int.tdiv_eq_ediv_of_nonneg (by omega), ← Int.neg_tdiv, Int.neg_neg]
  by_cases ht : 0 ≤ t
  · rw [Int.tdiv_eq_ediv_of_nonneg ht, Int.tdiv_eq_ediv_of_nonneg (by omega)]
    exact ediv_le_ediv_add_two hd hle hlt
  · by_cases ht' : t' < 0
    · -- both negative: the quotients of `-t'` and `-t`, negated
      rw [hneg t (by omega), hneg t' ht']
      have := ediv_le_ediv_add_two (a := -t') (b := -t) hd (by omega) (by omega)
      omega
    · -- `t < 0 ≤ t'`: one quotient on each side of zero
      rw [hneg t (by omega), Int.tdiv_eq_ediv_of_nonneg (by omega)]
      have hpos : 0 ≤ (-t) / d := Int.ediv_nonneg (by omega) hd.le
      have hpos' : 0 ≤ t' / d := Int.ediv_nonneg (by omega) hd.le
      have := ediv_add_ediv_le_one (a := -t) (b := t') hd (by omega)
      omega

/-- A quotient by a positive divisor stays in the range of `time_t`. -/
theorem tdiv_mem_time_range {d t : Int} (hd : 0 < d) (hlo : -2 ^ 63 ≤ t) (hhi : t < 2 ^ 63) :
    -2 ^ 63 ≤ t.tdiv d ∧ t.tdiv d < 2 ^ 63 := by
  by_cases ht : 0 ≤ t
  · rw [Int.tdiv_eq_ediv_of_nonneg ht]
    have := Int.ediv_le_self d ht
    have := Int.ediv_nonneg ht hd.le
    omega
  · rw [← Int.neg_neg t, Int.neg_tdiv, Int.tdiv_eq_ediv_of_nonneg (by omega)]
    have := Int.ediv_le_self d (show 0 ≤ -t by omega)
    have := Int.ediv_nonneg (show 0 ≤ -t by omega) hd.le
    omega

/-- The slot of `calculate_session_id_hmac` over the values of `--hand-window`. At `0` it divides
by zero and at `INT_MAX` the sum `handwindow + 1` overflows, for every time and offset. In
between, the slot of a time is defined, and a cookie issued at `t` with offset `0` is the cookie of
`t'` at one of the offsets of `check_session_id_hmac`, for every later `t'` within one hand
window. -/
theorem session_id_slot_hand_window :
    (∀ now offset, sessionIdSlot now 0 offset = none) ∧
    (∀ now offset, sessionIdSlot now intMax offset = none) ∧
    ∀ handwindow, 1 ≤ handwindow → handwindow < intMax →
      ∀ t t', -2 ^ 63 ≤ t → t' < 2 ^ 63 → t ≤ t' → t' < t + handwindow →
        ∃ slot, sessionIdSlot t handwindow 0 = some slot ∧
          ∃ offset ∈ sessionIdOffsets, sessionIdSlot t' handwindow offset = some slot ∧
            ∀ hmac clientSid fromAddr,
              calculateSessionIdHmac hmac t' clientSid fromAddr handwindow offset =
                calculateSessionIdHmac hmac t clientSid fromAddr handwindow 0 := by
  refine ⟨fun now offset => by simp [sessionIdSlot, intMax],
    fun now offset => by simp [sessionIdSlot, intMax], ?_⟩
  intro handwindow h1 hmax t t' hlo hhi hle hlt
  unfold intMax at hmax
  -- the divisor `(handwindow + 1) / 2` is positive and at least half the window
  have hdiv : (handwindow + 1).tdiv 2 = (handwindow + 1) / 2 :=
    Int.tdiv_eq_ediv_of_nonneg (by omega)
  have hd : 0 < (handwindow + 1).tdiv 2 := by omega
  have hw : t' < t + 2 * (handwindow + 1).tdiv 2 := by omega
  obtain ⟨hmono, htwo⟩ := tdiv_le_tdiv_add_two hd hle hw
  obtain ⟨hrlo, hrhi⟩ := tdiv_mem_time_range hd hlo (by omega)
  have hslot : ∀ now offset, -2 ^ 63 ≤ now.tdiv ((handwindow + 1).tdiv 2) + offset →
      now.tdiv ((handwindow + 1).tdiv 2) + offset < 2 ^ 63 →
      sessionIdSlot now handwindow offset = some (now.tdiv ((handwindow + 1).tdiv 2) + offset) := by
    intro now offset hl hh
    simp only [sessionIdSlot, intMax]
    rw [if_neg (by omega), if_neg (by omega), if_neg (by omega)]
  -- the offset that takes the slot of `t'` back to the slot of `t`
  have hoff : t.tdiv ((handwindow + 1).tdiv 2) - t'.tdiv ((handwindow + 1).tdiv 2) ∈
      sessionIdOffsets := by
    simp only [sessionIdOffsets, List.mem_cons, List.not_mem_nil, or_false]
    omega
  have ht : sessionIdSlot t handwindow 0 = some (t.tdiv ((handwindow + 1).tdiv 2)) := by
    rw [hslot t 0 (by omega) (by omega), Int.add_zero]
  have ht' : sessionIdSlot t' handwindow (t.tdiv ((handwindow + 1).tdiv 2) -
      t'.tdiv ((handwindow + 1).tdiv 2)) = some (t.tdiv ((handwindow + 1).tdiv 2)) := by
    rw [hslot t' _ (by omega) (by omega)]
    congr 1
    omega
  refine ⟨_, ht, _, hoff, ht', fun hmac clientSid fromAddr => ?_⟩
  rw [calculateSessionIdHmac, calculateSessionIdHmac, sessionIdTime_of_slot ht,
    sessionIdTime_of_slot ht']

/-- `--hand-window 0` divides by zero, while the default of 60 seconds recomputes a cookie of time
0 at time 59. -/
theorem session_id_slot_hand_window_zero :
    sessionIdSlot 1000 0 0 = none ∧
      ∃ slot, sessionIdSlot 0 60 0 = some slot ∧
        ∃ offset ∈ sessionIdOffsets, sessionIdSlot 59 60 offset = some slot := by
  obtain ⟨hzero, -, hwindow⟩ := session_id_slot_hand_window
  obtain ⟨slot, h0, offset, hoff, h59, -⟩ :=
    hwindow 60 (by decide) (by decide) 0 59 (by decide) (by decide) (by decide) (by decide)
  exact ⟨hzero 1000 0, slot, h0, offset, hoff, h59⟩

end OpenVpn
