import OpenVpn.Dhcp

/-! The option walks of `dhcp.c` on the option bytes themselves. `dhcpMessageType` is what
`get_dhcp_message_type` finds, and `doExtractList` is the loop of `do_extract` on the window from
the current option to the end of the options: a deleted router option gives way to the bytes after
it, and the window is filled up with `PAD`. On a field of whole options closed by `END` the pass
keeps the other options in order and returns the first router address
(`do_extract_keeps_other_options`); on any bytes, a second pass changes nothing and finds no address
(`doExtractList_stable`). -/

namespace OpenVpn

open BigEndian

/-- What `get_dhcp_message_type` finds in the option bytes `w`: the message type, or `-1`. -/
def dhcpMessageType (w : List UInt8) : Int :=
  match w with
  | [] => -1
  | type :: rest =>
      if type.toNat = dhcpEnd then -1
      else if type.toNat = dhcpPad then dhcpMessageType rest
      else if type.toNat = dhcpMsgType then
        match rest with
        | olen :: t :: _ => if olen.toNat = 1 then t.toNat else -1
        | _ => -1
      else
        match rest with
        | len :: data => dhcpMessageType (data.drop len.toNat)
        | [] => -1
termination_by w.length
decreasing_by
  all_goals simp only [List.length_cons, List.length_drop]
  all_goals omega

section TypeWalk

variable {type olen t len : UInt8} {rest data : List UInt8}

@[simp] theorem dhcpMessageType_nil : dhcpMessageType [] = -1 := by
  rw [dhcpMessageType.eq_def]

theorem dhcpMessageType_end (h : type.toNat = dhcpEnd) : dhcpMessageType (type :: rest) = -1 := by
  rw [dhcpMessageType.eq_def]
  simp only [if_pos h]

theorem dhcpMessageType_pad (h : type.toNat = dhcpPad) :
    dhcpMessageType (type :: rest) = dhcpMessageType rest := by
  have hne : type.toNat ≠ dhcpEnd := by simp only [dhcpPad, dhcpEnd] at h ⊢; omega
  rw [dhcpMessageType.eq_def]
  simp only [if_neg hne, if_pos h]

theorem dhcpMessageType_msgType (h : type.toNat = dhcpMsgType) :
    dhcpMessageType (type :: olen :: t :: rest) = if olen.toNat = 1 then (t.toNat : Int) else -1 := by
  have hne : type.toNat ≠ dhcpEnd := by simp only [dhcpMsgType, dhcpEnd] at h ⊢; omega
  have hpad : type.toNat ≠ dhcpPad := by simp only [dhcpMsgType, dhcpPad] at h ⊢; omega
  rw [dhcpMessageType.eq_def]
  simp only [if_neg hne, if_neg hpad, if_pos h]

/-- A message type option without room for its length and value. -/
theorem dhcpMessageType_msgType_short (h : type.toNat = dhcpMsgType) (hr : rest.length < 2) :
    dhcpMessageType (type :: rest) = -1 := by
  have hne : type.toNat ≠ dhcpEnd := by simp only [dhcpMsgType, dhcpEnd] at h ⊢; omega
  have hpad : type.toNat ≠ dhcpPad := by simp only [dhcpMsgType, dhcpPad] at h ⊢; omega
  rw [dhcpMessageType.eq_def]
  simp only [if_neg hne, if_neg hpad, if_pos h]
  match rest, hr with
  | [], _ => rfl
  | [_], _ => rfl

theorem dhcpMessageType_other (hne : type.toNat ≠ dhcpEnd) (hpad : type.toNat ≠ dhcpPad)
    (hmsg : type.toNat ≠ dhcpMsgType) :
    dhcpMessageType (type :: len :: data) = dhcpMessageType (data.drop len.toNat) := by
  rw [dhcpMessageType.eq_def]
  simp only [if_neg hne, if_neg hpad, if_neg hmsg]

theorem dhcpMessageType_one (hne : type.toNat ≠ dhcpEnd) (hpad : type.toNat ≠ dhcpPad)
    (hmsg : type.toNat ≠ dhcpMsgType) : dhcpMessageType [type] = -1 := by
  rw [dhcpMessageType.eq_def]
  simp only [if_neg hne, if_neg hpad, if_neg hmsg]

/-- The message type option in one lemma: its length byte, and the byte after it if there is one. -/
theorem dhcpMessageType_msgType_head (h : type.toNat = dhcpMsgType) :
    dhcpMessageType (type :: olen :: rest) =
      if olen.toNat = 1 then (rest.head?.map fun t => (t.toNat : Int)).getD (-1) else -1 := by
  cases rest with
  | nil =>
      rw [dhcpMessageType_msgType_short h (by simp)]
      split <;> rfl
  | cons t rest => rw [dhcpMessageType_msgType h]; rfl

end TypeWalk

/-- A message type that was found is found again with bytes appended: the walk stopped inside `w`. -/
theorem dhcpMessageType_append (w Z : List UInt8) :
    dhcpMessageType w ≠ -1 → dhcpMessageType (w ++ Z) = dhcpMessageType w := by
  fun_induction dhcpMessageType w with
  | case1 | case2 | case5 | case6 | case8 => intro h; exact absurd rfl h
  | case3 type rest _ hpad ih =>
      intro h
      rw [List.cons_append, dhcpMessageType_pad hpad, ih h]
  | case4 type _ _ hmsg olen t tail holen =>
      intro _
      rw [List.cons_append, List.cons_append, List.cons_append, dhcpMessageType_msgType hmsg,
        if_pos holen]
  | case7 type hend hpad hmsg len data ih =>
      intro h
      by_cases hlen : len.toNat ≤ data.length
      · rw [List.cons_append, List.cons_append, dhcpMessageType_other hend hpad hmsg,
          List.drop_append_of_le_length hlen, ih h]
      · -- an option running past the end leaves nothing to walk
        rw [List.drop_eq_nil_of_le (by omega), dhcpMessageType_nil] at h
        exact absurd rfl h

/-- The measure of the loop of `do_extract`: every turn takes a byte off the front of the window or
a nonzero byte out of it. -/
def doExtractMeasure (w : List UInt8) : Nat := w.length + w.countP (· != 0)

section Measure

variable {type len : UInt8} {rest data : List UInt8}

theorem doExtractMeasure_le (w : List UInt8) : doExtractMeasure w ≤ 2 * w.length := by
  have := List.countP_le_length (p := (· != 0)) (l := w)
  unfold doExtractMeasure
  omega

/-- A `PAD` byte leaves the window. -/
theorem doExtractMeasure_pad : doExtractMeasure rest < doExtractMeasure (type :: rest) := by
  simp only [doExtractMeasure, List.length_cons, List.countP_cons]
  omega

/-- A deleted router option keeps the length of the window, and its nonzero code leaves it. -/
theorem doExtractMeasure_delete (h : type.toNat = dhcpRouter) (hlen : len.toNat ≤ data.length) :
    doExtractMeasure (data.drop len.toNat ++ List.replicate (len.toNat + 2) 0) <
      doExtractMeasure (type :: len :: data) := by
  have hcode : (type != 0) = true := by
    have : type.toNat ≠ 0 := by simp only [dhcpRouter] at h; omega
    simpa [UInt8.ext_iff] using this
  have := (List.drop_sublist len.toNat data).countP_le (p := (· != 0))
  simp only [doExtractMeasure, List.length_cons, List.length_append, List.length_drop,
    List.length_replicate, List.countP_append, List.countP_cons, hcode, if_true,
    List.countP_replicate, bne_self_eq_false, Bool.false_eq_true, if_false]
  omega

/-- A skipped option leaves the window with its code and length byte. -/
theorem doExtractMeasure_skip :
    doExtractMeasure (data.drop len.toNat) < doExtractMeasure (type :: len :: data) := by
  have := (List.drop_sublist len.toNat data).countP_le (p := (· != 0))
  simp only [doExtractMeasure, List.length_cons, List.length_drop, List.countP_cons]
  omega

end Measure

/-- The loop of `do_extract` on the window `w` with the router address `ret` found so far: the
window it leaves and the address. -/
def doExtractList (w : List UInt8) (ret : UInt32) : List UInt8 × UInt32 :=
  match w with
  | [] => ([], ret)
  | type :: rest =>
      if type.toNat = dhcpEnd then (type :: rest, ret)
      else if type.toNat = dhcpPad then (doExtractList rest ret).map (type :: ·) id
      else if type.toNat = dhcpRouter then
        match rest with
        | len :: data =>
            if len.toNat ≤ data.length then
              let ret := if ret = 0 ∧ 4 ≤ len.toNat ∧ len.toNat % 4 = 0 then
                UInt32.ofNat (decode (data.take 4)) else ret
              doExtractList (data.drop len.toNat ++ List.replicate (len.toNat + 2) 0) ret
            else (type :: rest, ret)
        | [] => (type :: rest, ret)
      else
        match rest with
        | len :: data =>
            (doExtractList (data.drop len.toNat) ret).map (type :: len :: data.take len.toNat ++ ·) id
        | [] => (type :: rest, ret)
termination_by doExtractMeasure w
decreasing_by
  · exact doExtractMeasure_pad
  · exact doExtractMeasure_delete ‹_› ‹_›
  · exact doExtractMeasure_skip

section Walk

variable {type len : UInt8} {rest data : List UInt8} {ret : UInt32}

/-! One lemma for each way a turn of the loop can go. -/

@[simp] theorem doExtractList_nil : doExtractList [] ret = ([], ret) := by
  rw [doExtractList.eq_def]

theorem doExtractList_end (h : type.toNat = dhcpEnd) :
    doExtractList (type :: rest) ret = (type :: rest, ret) := by
  rw [doExtractList.eq_def]
  simp only [if_pos h]

theorem doExtractList_pad (h : type.toNat = dhcpPad) :
    doExtractList (type :: rest) ret = (doExtractList rest ret).map (type :: ·) id := by
  have hne : type.toNat ≠ dhcpEnd := by simp only [dhcpPad, dhcpEnd] at h ⊢; omega
  rw [doExtractList.eq_def]
  simp only [if_neg hne, if_pos h]

theorem doExtractList_router (h : type.toNat = dhcpRouter) (hlen : len.toNat ≤ data.length) :
    doExtractList (type :: len :: data) ret =
      doExtractList (data.drop len.toNat ++ List.replicate (len.toNat + 2) 0)
        (if ret = 0 ∧ 4 ≤ len.toNat ∧ len.toNat % 4 = 0 then UInt32.ofNat (decode (data.take 4))
          else ret) := by
  have hne : type.toNat ≠ dhcpEnd := by simp only [dhcpRouter, dhcpEnd] at h ⊢; omega
  have hpad : type.toNat ≠ dhcpPad := by simp only [dhcpRouter, dhcpPad] at h ⊢; omega
  rw [doExtractList, if_neg hne, if_neg hpad, if_pos h]
  simp only [if_pos hlen]

theorem doExtractList_router_long (h : type.toNat = dhcpRouter) (hlen : data.length < len.toNat) :
    doExtractList (type :: len :: data) ret = (type :: len :: data, ret) := by
  have hne : type.toNat ≠ dhcpEnd := by simp only [dhcpRouter, dhcpEnd] at h ⊢; omega
  have hpad : type.toNat ≠ dhcpPad := by simp only [dhcpRouter, dhcpPad] at h ⊢; omega
  rw [doExtractList, if_neg hne, if_neg hpad, if_pos h]
  simp only [if_neg (Nat.not_le.mpr hlen)]

theorem doExtractList_other (hne : type.toNat ≠ dhcpEnd) (hpad : type.toNat ≠ dhcpPad)
    (hr : type.toNat ≠ dhcpRouter) :
    doExtractList (type :: len :: data) ret =
      (doExtractList (data.drop len.toNat) ret).map (type :: len :: data.take len.toNat ++ ·) id := by
  rw [doExtractList, if_neg hne, if_neg hpad, if_neg hr]

/-- An option code as the last byte: the loop ends, `room` is 1. -/
theorem doExtractList_one (hne : type.toNat ≠ dhcpEnd) (hpad : type.toNat ≠ dhcpPad) :
    doExtractList [type] ret = ([type], ret) := by
  rw [doExtractList.eq_def]
  by_cases hr : type.toNat = dhcpRouter <;> simp [hne, hpad, hr]

end Walk

/-- The window keeps its length: the bytes of a deleted option come back as `PAD`. -/
theorem length_doExtractList (w : List UInt8) (ret : UInt32) :
    (doExtractList w ret).1.length = w.length := by
  fun_induction doExtractList w ret with
  | case1 | case2 | case5 | case6 | case8 => rfl
  | case3 _ _ _ _ _ ih => simp [ih]
  | case4 _ _ _ _ _ len data hlen _ ih =>
      simp only [ih, List.length_append, List.length_drop, List.length_replicate, List.length_cons]
      omega
  | case7 _ _ _ _ _ len data ih =>
      simp only [Prod.map_fst, ih, List.length_cons, List.length_append, List.length_take,
        List.length_drop]
      omega

/-- A skipped option is kept whole, or to the end of the window; what the pass leaves after it is
what follows it, or nothing. -/
theorem take_append_of_drop {data Z : List UInt8} {n : Nat} (hZ : data.drop n = [] → Z = []) :
    (data.take n ++ Z).take n = data.take n ∧ (data.take n ++ Z).drop n = Z := by
  by_cases hlen : n ≤ data.length
  · have hl : (data.take n).length = n := List.length_take_of_le hlen
    exact ⟨List.take_left' hl, List.drop_left' hl⟩
  · have hd : data.drop n = [] := List.drop_eq_nil_of_le (by omega)
    rw [hZ hd, List.append_nil, List.take_take, Nat.min_self, List.drop_eq_nil_of_le (by simp)]
    exact ⟨rfl, rfl⟩

/-- The window `do_extract` leaves has no router option it would delete: a second pass from any
address changes no byte and keeps the address. -/
theorem doExtractList_stable (w : List UInt8) (ret r : UInt32) :
    doExtractList (doExtractList w ret).1 r = ((doExtractList w ret).1, r) := by
  fun_induction doExtractList w ret with
  | case1 => exact doExtractList_nil
  | case2 _ type rest hend => exact doExtractList_end hend
  | case3 _ type rest _ hpad ih => rw [Prod.map_fst, doExtractList_pad hpad, ih]; rfl
  | case4 _ _ _ _ _ _ _ _ _ ih => exact ih
  | case5 _ type _ _ hr len data hlen => exact doExtractList_router_long hr (Nat.lt_of_not_le hlen)
  | case6 _ type hend hpad _ => exact doExtractList_one hend hpad
  | case7 ret type hend hpad hr len data ih =>
      -- the option is stepped over again; what follows it is the stable window of the first pass
      obtain ⟨htake, hdrop⟩ := take_append_of_drop (Z := (doExtractList (data.drop len.toNat) ret).1)
        fun hd => by rw [hd, doExtractList_nil]
      rw [Prod.map_fst, List.cons_append, List.cons_append, doExtractList_other hend hpad hr, htake,
        hdrop, ih]
      rfl
  | case8 _ type hend hpad _ => exact doExtractList_one hend hpad

/-- Deleting router options keeps a message type that was found: the options before it are
stepped over as before, and the `PAD` bytes come in after it. -/
theorem dhcpMessageType_doExtractList (w : List UInt8) (ret : UInt32) :
    dhcpMessageType w ≠ -1 → dhcpMessageType (doExtractList w ret).1 = dhcpMessageType w := by
  fun_induction doExtractList w ret with
  | case1 | case2 | case5 | case6 | case8 => intro _; rfl
  | case3 _ type rest _ hpad ih =>
      intro h
      rw [dhcpMessageType_pad hpad] at h ⊢
      rw [Prod.map_fst, dhcpMessageType_pad hpad, ih h]
  | case4 _ type hend hpad hr len data hlen _ ih =>
      have hmsg : type.toNat ≠ dhcpMsgType := by simp only [dhcpRouter, dhcpMsgType] at hr ⊢; omega
      intro h
      rw [dhcpMessageType_other hend hpad hmsg] at h ⊢
      have happ := dhcpMessageType_append (data.drop len.toNat) (List.replicate (len.toNat + 2) 0) h
      rw [ih (by rw [happ]; exact h), happ]
  | case7 ret type hend hpad hr len data ih =>
      intro h
      obtain ⟨-, hdrop⟩ := take_append_of_drop (Z := (doExtractList (data.drop len.toNat) ret).1)
        fun hd => by rw [hd, doExtractList_nil]
      rw [Prod.map_fst, List.cons_append, List.cons_append]
      by_cases hmsg : type.toNat = dhcpMsgType
      · -- the message type option: only its length byte and the byte after it are read
        rw [dhcpMessageType_msgType_head hmsg, dhcpMessageType_msgType_head hmsg]
        by_cases hl : len.toNat = 1
        · rw [if_pos hl, if_pos hl]
          cases data with
          | nil => simp only [List.take_nil, List.drop_nil, doExtractList_nil, List.append_nil]
          | cons t tail => rw [hl, List.take_succ_cons, List.take_zero]; rfl
        · rw [if_neg hl, if_neg hl]
      · rw [dhcpMessageType_other hend hpad hmsg] at h
        rw [dhcpMessageType_other hend hpad hmsg, dhcpMessageType_other hend hpad hmsg, hdrop, ih h]

/-! ### Fields of whole options -/

/-- An option other than `PAD` and `END`, with at most 255 bytes of data. -/
structure DhcpTlv where
  code : UInt8
  data : List UInt8
  code_ne_pad : code.toNat ≠ dhcpPad
  code_ne_end : code.toNat ≠ dhcpEnd
  length_lt : data.length < 256

/-- An option of a DHCP option field before its `END`. -/
inductive DhcpOption
  | pad
  | tlv (o : DhcpTlv)

namespace DhcpOption

/-- The bytes of the option: a `PAD` byte, or code, length and data. -/
def bytes : DhcpOption → List UInt8
  | pad => [UInt8.ofNat dhcpPad]
  | tlv o => o.code :: UInt8.ofNat o.data.length :: o.data

/-- A router option. -/
def isRouter : DhcpOption → Bool
  | pad => false
  | tlv o => o.code.toNat = dhcpRouter

/-- The address `do_extract` can take from the option: the first of a router option whose data
is a nonempty list of addresses. -/
def routerAddress : DhcpOption → Option UInt32
  | pad => none
  | tlv o =>
      if o.code.toNat = dhcpRouter ∧ 4 ≤ o.data.length ∧ o.data.length % 4 = 0 then
        some (UInt32.ofNat (decode (o.data.take 4)))
      else none

end DhcpOption

/-- The bytes of a list of options. -/
def dhcpOptionsBytes (os : List DhcpOption) : List UInt8 := os.flatMap DhcpOption.bytes

/-- The address of `do_extract` after the options `os`, from `ret`: an address is taken while
`ret` is `0`. -/
def dhcpRouterAcc (ret : UInt32) (os : List DhcpOption) : UInt32 :=
  (os.filterMap DhcpOption.routerAddress).foldl (fun ret a => if ret = 0 then a else ret) ret

/-- Taking addresses while the accumulator is `0` finds the first nonzero one. -/
theorem foldl_first_nonzero (l : List UInt32) :
    l.foldl (fun ret a => if ret = 0 then a else ret) 0 = (l.find? (· ≠ 0)).getD 0 := by
  have hkeep : ∀ (l : List UInt32) (r : UInt32), r ≠ 0 →
      l.foldl (fun ret a => if ret = 0 then a else ret) r = r := by
    intro l
    induction l with
    | nil => intro r _; rfl
    | cons a l ih => intro r hr; rw [List.foldl_cons, if_neg hr, ih r hr]
  induction l with
  | nil => rfl
  | cons a l ih =>
      rw [List.foldl_cons, if_pos rfl]
      by_cases ha : a = 0
      · subst ha
        simp [ih]
      · simp [hkeep l a ha, ha]

@[simp] theorem dhcpOptionsBytes_nil : dhcpOptionsBytes [] = [] := rfl

@[simp] theorem dhcpOptionsBytes_cons (o : DhcpOption) (os : List DhcpOption) :
    dhcpOptionsBytes (o :: os) = o.bytes ++ dhcpOptionsBytes os := rfl

theorem dhcpRouterAcc_cons (ret : UInt32) (o : DhcpOption) (os : List DhcpOption) :
    dhcpRouterAcc ret (o :: os) =
      dhcpRouterAcc (match o.routerAddress with
        | some a => if ret = 0 then a else ret
        | none => ret) os := by
  unfold dhcpRouterAcc
  cases h : o.routerAddress <;> simp [h]

/-- The options `os` at the front of the window, then `T` and `k` bytes of padding: router options
are deleted and their bytes come back as padding, the others are kept. `T` is what follows the
options, and the loop leaves it as it is whatever padding follows. -/
theorem doExtractList_options_append (T : List UInt8)
    (hT : ∀ k r, doExtractList (T ++ List.replicate k 0) r = (T ++ List.replicate k 0, r)) :
    ∀ (os : List DhcpOption) (k : Nat) (ret : UInt32),
      doExtractList (dhcpOptionsBytes os ++ T ++ List.replicate k 0) ret =
        (dhcpOptionsBytes (os.filter fun o => !o.isRouter) ++ T ++
            List.replicate (k + (dhcpOptionsBytes (os.filter (·.isRouter))).length) 0,
          dhcpRouterAcc ret os)
  | [], k, ret => by simpa [dhcpRouterAcc] using hT k ret
  | .pad :: os, k, ret => by
      have h₁ : (DhcpOption.pad :: os).filter (fun o => !o.isRouter) =
          .pad :: os.filter (fun o => !o.isRouter) := List.filter_cons_of_pos rfl
      have h₂ : (DhcpOption.pad :: os).filter (·.isRouter) = os.filter (·.isRouter) :=
        List.filter_cons_of_neg (by simp [DhcpOption.isRouter])
      rw [h₁, h₂, dhcpOptionsBytes_cons, dhcpOptionsBytes_cons, DhcpOption.bytes]
      simp only [List.cons_append, List.nil_append]
      rw [doExtractList_pad rfl, doExtractList_options_append T hT os k ret, dhcpRouterAcc_cons]
      rfl
  | .tlv o :: os, k, ret => by
      have hlen : (UInt8.ofNat o.data.length).toNat = o.data.length :=
        UInt8.toNat_ofNat_of_lt o.length_lt
      have hw : dhcpOptionsBytes (.tlv o :: os) ++ T ++ List.replicate k 0 =
          o.code :: UInt8.ofNat o.data.length ::
            (o.data ++ (dhcpOptionsBytes os ++ T ++ List.replicate k 0)) := by
        simp [DhcpOption.bytes]
      by_cases hr : o.code.toNat = dhcpRouter
      · -- the router option goes; its bytes come back as padding after `T`
        have h₁ : (DhcpOption.tlv o :: os).filter (fun o => !o.isRouter) =
            os.filter (fun o => !o.isRouter) :=
          List.filter_cons_of_neg (by simp [DhcpOption.isRouter, hr])
        have h₂ : (DhcpOption.tlv o :: os).filter (·.isRouter) = .tlv o :: os.filter (·.isRouter) :=
          List.filter_cons_of_pos (by simp [DhcpOption.isRouter, hr])
        have hret : (if ret = 0 ∧ 4 ≤ o.data.length ∧ o.data.length % 4 = 0 then
              UInt32.ofNat (decode ((o.data ++ (dhcpOptionsBytes os ++ T ++
                List.replicate k 0)).take 4)) else ret) =
            (match (DhcpOption.tlv o).routerAddress with
              | some a => if ret = 0 then a else ret
              | none => ret) := by
          by_cases hq : 4 ≤ o.data.length ∧ o.data.length % 4 = 0
          · rw [List.take_append_of_le_length hq.1]
            simp [DhcpOption.routerAddress, hr, hq]
          · simp [DhcpOption.routerAddress, hr, hq]
        have hwin : (o.data ++ (dhcpOptionsBytes os ++ T ++ List.replicate k 0)).drop
              o.data.length ++ List.replicate (o.data.length + 2) 0 =
            dhcpOptionsBytes os ++ T ++ List.replicate (k + (o.data.length + 2)) 0 := by
          simp [List.replicate_add]
        rw [hw, doExtractList_router hr (by simp [hlen]), hlen, hret, hwin,
          doExtractList_options_append T hT os, h₁, h₂, dhcpRouterAcc_cons, dhcpOptionsBytes_cons,
          List.length_append]
        simp only [DhcpOption.bytes, List.length_cons]
        rw [Nat.add_assoc]
      · -- another option is kept as it is
        have h₁ : (DhcpOption.tlv o :: os).filter (fun o => !o.isRouter) =
            .tlv o :: os.filter (fun o => !o.isRouter) :=
          List.filter_cons_of_pos (by simp [DhcpOption.isRouter, hr])
        have h₂ : (DhcpOption.tlv o :: os).filter (·.isRouter) = os.filter (·.isRouter) :=
          List.filter_cons_of_neg (by simp [DhcpOption.isRouter, hr])
        have hacc : (match (DhcpOption.tlv o).routerAddress with
              | some a => if ret = 0 then a else ret
              | none => ret) = ret := by
          simp [DhcpOption.routerAddress, hr]
        rw [hw, doExtractList_other o.code_ne_end o.code_ne_pad hr, hlen, List.drop_left,
          List.take_left, doExtractList_options_append T hT os, h₁, h₂, dhcpRouterAcc_cons, hacc]
        simp [DhcpOption.bytes]

/-- On an option field of whole options closed by `END`, `do_extract` keeps the options other than
the router options in their order, then `END` and what follows it, and pads the field with as many
bytes as the router options had; it returns the first nonzero address of a router option whose
data is a nonempty list of addresses, or `0`. -/
theorem do_extract_keeps_other_options (os : List DhcpOption) (rest : List UInt8) :
    doExtractList (dhcpOptionsBytes os ++ UInt8.ofNat dhcpEnd :: rest) 0 =
      (dhcpOptionsBytes (os.filter fun o => !o.isRouter) ++ UInt8.ofNat dhcpEnd :: rest ++
          List.replicate (dhcpOptionsBytes (os.filter (·.isRouter))).length 0,
        ((os.filterMap DhcpOption.routerAddress).find? (· ≠ 0)).getD 0) := by
  have hT : ∀ k r, doExtractList (UInt8.ofNat dhcpEnd :: rest ++ List.replicate k 0) r =
      (UInt8.ofNat dhcpEnd :: rest ++ List.replicate k 0, r) := fun _ _ =>
    doExtractList_end rfl
  have h := doExtractList_options_append (UInt8.ofNat dhcpEnd :: rest) hT os 0 0
  rw [List.replicate_zero, List.append_nil, Nat.zero_add] at h
  rw [h, dhcpRouterAcc, foldl_first_nonzero]

end OpenVpn
