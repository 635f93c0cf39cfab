import OpenVpn.PoolIpv6
import OpenVpn.BufParse
import OpenVpn.BufferSafety
import OpenVpn.SocketAddr

/-! The persist file of `pool.c` as text. `ifconfig_pool_write` prints one line `cn,ip,ip6` per
entry with a common name (`ifconfig_pool_list`, `status_printf`), and `ifconfig_pool_read` takes
the file back line by line (`status_read`), skips empty and comment lines, splits a line with
`buf_parse` into three fields of `buf_size = 128` bytes and hands the fields to the handle
computation of `ifconfigPoolLineHandle`. The addresses are printed and read with the functions of
`socket.c` (`SocketAddr`), over a C library `lib` with the laws a round trip needs.

A common name is a C string; the pool keeps it as a `String` of one character per byte. -/

namespace OpenVpn

/-- The bytes of a common name. -/
def cnBytes (cn : String) : List UInt8 := cn.toList.map fun c => UInt8.ofNat c.toNat

/-- The common name of a C string, `string_alloc(cn_buf, NULL)`. -/
def cnOfBytes (bytes : List UInt8) : String := String.ofList (bytes.map fun b => Char.ofNat b.toNat)

/-! ### Writing -/

/-- `ifconfig_pool_handle_to_ip_base`. -/
def ifconfigPoolHandleToIpBase (pool : IfconfigPool) (hand : Nat) : UInt32 :=
  if pool.ipv4Enabled ∧ hand < pool.list.length then
    match pool.ipv4Type with
    | .net30 => pool.ipv4Base + (UInt32.ofNat hand <<< 2)
    | .indiv => pool.ipv4Base + UInt32.ofNat hand
  else 0

/-- `ifconfig_pool_handle_to_ipv6_base`. -/
def ifconfigPoolHandleToIpv6Base (pool : IfconfigPool) (hand : Nat) : In6Addr :=
  if pool.ipv6Enabled ∧ hand < pool.list.length then addIn6Addr pool.ipv6Base (UInt32.ofNat hand)
  else In6Addr.any

/-- The line `status_printf(out, "%s,%s,%s", ...)` of `ifconfig_pool_list` for handle `i` held by
`cn`, with an address only where its pool is enabled. -/
def ifconfigPoolListLine (lib : AddrLib) (pool : IfconfigPool) (i : Nat) (cn : String) :
    List UInt8 :=
  let ipStr := if pool.ipv4Enabled then printInAddrT lib (ifconfigPoolHandleToIpBase pool i) else []
  let ip6Str := if pool.ipv6Enabled then printIn6Addr lib (ifconfigPoolHandleToIpv6Base pool i) else []
  cnBytes cn ++ [44] ++ ipStr ++ [44] ++ ip6Str

/-- `ifconfig_pool_list`: the line of each entry with a common name, in handle order. -/
def ifconfigPoolList (lib : AddrLib) (pool : IfconfigPool) : List (List UInt8) :=
  (List.range pool.list.length).filterMap fun i =>
    (pool.list.getD i PoolEntry.clear).commonName.map (ifconfigPoolListLine lib pool i)

/-- `status_printf` of each line into the file `status_reset` emptied: the line and `\n`, until a
line reaches `STATUS_PRINTF_MAXLEN` bytes, which sets `errors` and stops every later write. -/
def statusPrintfLines : List (List UInt8) → List UInt8
  | [] => []
  | line :: lines => if line.length < 512 then line ++ 10 :: statusPrintfLines lines else []

/-- `ifconfig_pool_write`: the bytes of the file. -/
def ifconfigPoolWrite (lib : AddrLib) (pool : IfconfigPool) : List UInt8 :=
  statusPrintfLines (ifconfigPoolList lib pool)

/-! ### Reading -/

/-- The loop of `status_read`: the bytes up to the next `\n`, each but `\r` appended with
`buf_write_u8`, which drops a byte the buffer has no room for; the flag is `ret`, set once a byte
was read. -/
def statusReadLoop (buf : Buffer) : List UInt8 → Bool → Option (Buffer × List UInt8 × Bool)
  | [], ret => some (buf, [], ret)
  | c :: file, _ =>
      if c = 13 then statusReadLoop buf file true
      else if c = 10 then some (buf, file, true)
      else (bufWrite buf [c] 0 1).bind fun r => statusReadLoop r.1 file true

/-- `status_read`: the line, `NUL` terminated, the rest of the file, and whether a byte was read. -/
def statusRead (buf : Buffer) (file : List UInt8) : Option (Buffer × List UInt8 × Bool) :=
  (statusReadLoop buf file false).bind fun r =>
    (bufNullTerminate r.1).map fun buf => (buf, r.2.1, r.2.2)

/-- The arrays `cn_buf`, `ip_buf` and `ip6_buf` of `ifconfig_pool_read`, cleared once and kept
from one line to the next. -/
structure ReadBufs where
  cn : List UInt8
  ip : List UInt8
  ip6 : List UInt8
  deriving DecidableEq, Repr

/-- An address field: empty (`strlen` is 0), not an address, or the address `parse` reads. -/
def persistField {α : Type} (parse : List UInt8 → Option α) (s : List UInt8) : PersistField α :=
  if 0 < s.length then
    match parse s with
    | some a => .addr a
    | none => .invalid
  else .empty

/-- The `buf_parse` calls of one line and the address conversions: the line's fields, or `none`
where one of the first two calls returns false (`continue`). -/
def ifconfigPoolParseLine (lib : AddrLib) (inBuf : Buffer) (bufs : ReadBufs) :
    Option (Buffer × Option PersistLine × ReadBufs) := do
  let (inBuf, cn, ok) ← bufParse inBuf 44 bufs.cn 128
  if !ok then return (inBuf, none, { bufs with cn := cn })
  let (inBuf, ip, ok) ← bufParse inBuf 44 bufs.ip 128
  if !ok then return (inBuf, none, { bufs with cn := cn, ip := ip })
  let (inBuf, ip6, ok) ← bufParse inBuf 44 bufs.ip6 128
  let ipv6 := if ok then persistField (getIpv6Addr lib) (cString ip6) else .empty
  return (inBuf, some ⟨cnOfBytes (cString cn), persistField (getaddr lib) (cString ip), ipv6⟩,
    ⟨cn, ip, ip6⟩)

/-- The loop of `ifconfig_pool_read` with `fuel` passes: `buf_init(&in, 0)`, `status_read`, the
tests for an empty line and a comment line (`#` or `;`), the fields, and `ifconfig_pool_set` at
the line's handle where it has one; `none` where an `ASSERT` fails or the fuel runs out. -/
def ifconfigPoolReadLoop (lib : AddrLib) (fixed : Bool) (now : Int) :
    Nat → IfconfigPool → Buffer → ReadBufs → List UInt8 → Option IfconfigPool
  | 0, _, _, _, _ => none
  | fuel + 1, pool, inBuf, bufs, file =>
      match bufInit inBuf 0 with
      | (_, false) => none
      | (inBuf, true) => do
          let (inBuf, file, ok) ← statusRead inBuf file
          if !ok then return pool
          if bufLen inBuf = 0 then
            ifconfigPoolReadLoop lib fixed now fuel pool inBuf bufs file
          else
            let c ← (bufContents inBuf).bind List.head?
            if c = 35 ∨ c = 59 then
              ifconfigPoolReadLoop lib fixed now fuel pool inBuf bufs file
            else
              let (inBuf, line, bufs) ← ifconfigPoolParseLine lib inBuf bufs
              match line with
              | none => ifconfigPoolReadLoop lib fixed now fuel pool inBuf bufs file
              | some line =>
                  let h := ifconfigPoolLineHandle pool line
                  let pool := if 0 ≤ h then ifconfigPoolSet pool line.commonName h.toNat fixed now
                    else pool
                  ifconfigPoolReadLoop lib fixed now fuel pool inBuf bufs file

/-- `ifconfig_pool_read` of the file `file`: the buffer `in` of `alloc_buf_gc(256)` and three
cleared arrays of 128 bytes; each pass of the loop reads at least one byte or ends it. -/
def ifconfigPoolReadFile (lib : AddrLib) (pool : IfconfigPool) (fixed : Bool) (now : Int)
    (file : List UInt8) : Option IfconfigPool :=
  ifconfigPoolReadLoop lib fixed now (file.length + 1) pool
    ⟨256, 0, 0, some (List.replicate 256 0)⟩
    ⟨List.replicate 128 0, List.replicate 128 0, List.replicate 128 0⟩ file

/-! ### Names -/

section Names

/-- A name the persist file carries: one byte per character, no `NUL`, `\n`, `\r` or comma, room
in a 128-byte array, and no comment mark (`#` or `;`) first. -/
def PersistableName (cn : String) : Prop :=
  (∀ c ∈ cn.toList, c.toNat < 256 ∧ c ≠ '\x00' ∧ c ≠ '\n' ∧ c ≠ '\r' ∧ c ≠ ',') ∧
    cn.length < 128 ∧ ∀ c ∈ cn.toList.head?, c ≠ '#' ∧ c ≠ ';'

/-- What a name that `ifconfig_pool_read` records has: no comma, fewer than 128 characters, and no
comment mark first. -/
def RecordedName (cn : String) : Prop :=
  ',' ∉ cn.toList ∧ cn.length < 128 ∧ ∀ c ∈ cn.toList.head?, c ≠ '#' ∧ c ≠ ';'

theorem toNat_charOfNat {n : Nat} (h : n < 256) : (Char.ofNat n).toNat = n := by
  rw [Char.toNat_ofNat, if_pos]
  unfold Nat.isValidChar
  omega

theorem toList_cnOfBytes (bytes : List UInt8) :
    (cnOfBytes bytes).toList = bytes.map fun b => Char.ofNat b.toNat := by
  rw [cnOfBytes, String.toList_ofList]

theorem length_cnBytes (cn : String) : (cnBytes cn).length = cn.length := by
  rw [cnBytes, List.length_map, String.length_toList]

theorem cnOfBytes_cnBytes {cn : String} (h : ∀ c ∈ cn.toList, c.toNat < 256) :
    cnOfBytes (cnBytes cn) = cn := by
  rw [cnOfBytes, cnBytes, List.map_map]
  conv_rhs => rw [← String.ofList_toList (s := cn)]
  congr 1
  conv_rhs => rw [← List.map_id cn.toList]
  apply List.map_congr_left
  intro c hc
  simp only [Function.comp_apply, UInt8.toNat_ofNat', Nat.mod_eq_of_lt (h c hc), id,
    Char.ofNat_toNat]

theorem byte_of_mem_cnBytes {cn : String} (h : ∀ c ∈ cn.toList, c.toNat < 256) :
    ∀ b ∈ cnBytes cn, ∃ c ∈ cn.toList, b.toNat = c.toNat := by
  intro b hb
  obtain ⟨c, hc, rfl⟩ := List.mem_map.mp hb
  exact ⟨c, hc, by rw [UInt8.toNat_ofNat', Nat.mod_eq_of_lt (h c hc)]⟩

/-- The bytes of a persistable name: no `NUL`, comma, `\n` or `\r`, and no comment mark first. -/
theorem cnBytes_text {cn : String} (h : PersistableName cn) :
    (∀ b ∈ cnBytes cn, b ≠ 0 ∧ b ≠ 44 ∧ b ≠ 10 ∧ b ≠ 13) ∧
      ∀ b ∈ (cnBytes cn).head?, b ≠ 35 ∧ b ≠ 59 := by
  have hbyte := byte_of_mem_cnBytes fun c hc => (h.1 c hc).1
  -- a byte differs from `k` where its character differs from the character `k`
  have hne : ∀ (b : UInt8) (c : Char) (k : Nat), k < 256 → b.toNat = c.toNat →
      c ≠ Char.ofNat k → b ≠ UInt8.ofNat k := by
    intro b c k hk hbc hc hbk
    apply hc
    rw [← Char.ofNat_toNat c, ← hbc, hbk, UInt8.toNat_ofNat', Nat.mod_eq_of_lt hk]
  refine ⟨fun b hb => ?_, fun b hb => ?_⟩
  · obtain ⟨c, hc, hbc⟩ := hbyte b hb
    obtain ⟨-, h0, h10, h13, h44⟩ := h.1 c hc
    exact ⟨hne b c 0 (by norm_num) hbc h0, hne b c 44 (by norm_num) hbc h44,
      hne b c 10 (by norm_num) hbc h10, hne b c 13 (by norm_num) hbc h13⟩
  · rw [cnBytes, List.head?_map] at hb
    obtain ⟨c, hc, rfl⟩ := Option.map_eq_some_iff.mp hb
    obtain ⟨h35, h59⟩ := h.2.2 c hc
    have hlt := (h.1 c (List.mem_of_mem_head? hc)).1
    have hbc : (UInt8.ofNat c.toNat).toNat = c.toNat := by
      rw [UInt8.toNat_ofNat', Nat.mod_eq_of_lt hlt]
    exact ⟨hne _ c 35 (by norm_num) hbc h35, hne _ c 59 (by norm_num) hbc h59⟩

/-- The name `ifconfig_pool_read` takes from a line, the first field cut to 127 bytes, has no
comma and fewer than 128 characters, and begins with the line's first byte. -/
theorem recordedName_field {content : List UInt8} (hhead : ∀ c ∈ content.head?, c ≠ 35 ∧ c ≠ 59) :
    RecordedName (cnOfBytes ((content.takeWhile fun c => !isFieldEnd 44 c).take 127)) := by
  set f := (content.takeWhile fun c => !isFieldEnd 44 c).take 127 with hf
  have hchar : ∀ b ∈ f, (Char.ofNat b.toNat).toNat = b.toNat := fun b _ =>
    toNat_charOfNat b.toNat_lt
  refine ⟨fun hmem => ?_, ?_, fun c hc => ?_⟩
  · rw [toList_cnOfBytes] at hmem
    obtain ⟨b, hb, hbc⟩ := List.mem_map.mp hmem
    have hend := List.mem_takeWhile_imp (List.mem_of_mem_take hb)
    simp only [Bool.not_eq_eq_eq_not, Bool.not_true] at hend
    have h44 : b.toNat = 44 := by rw [← hchar b hb, hbc]; rfl
    have := not_end_of_isFieldEnd hend
    omega
  · rw [← String.length_toList, toList_cnOfBytes, List.length_map]
    have : f.length ≤ 127 := by rw [hf]; exact List.length_take_le _ _
    omega
  · rw [toList_cnOfBytes, List.head?_map] at hc
    obtain ⟨b, hb, rfl⟩ := Option.map_eq_some_iff.mp hc
    -- the field starts with the first byte of the content
    have hb' : b ∈ content.head? := by
      rw [hf, List.head?_take, if_neg (by norm_num), List.head?_takeWhile] at hb
      exact (Option.filter_eq_some_iff.mp hb).1
    obtain ⟨h35, h59⟩ := hhead b hb'
    have hlt := b.toNat_lt
    constructor
    · intro h
      apply h35
      apply UInt8.toNat_inj.mp
      rw [← toNat_charOfNat hlt, h]
      rfl
    · intro h
      apply h59
      apply UInt8.toNat_inj.mp
      rw [← toNat_charOfNat hlt, h]
      rfl

end Names

/-! ### `status_read` -/

section StatusRead

/-- From a bounded buffer the loop of `status_read` is defined and keeps the buffer bounded; it
consumes a byte of a non-empty file and sets `ret` exactly then. -/
theorem statusReadLoop_safe (file : List UInt8) :
    ∀ (buf : Buffer) (ret : Bool), BufBounded buf →
      ∃ buf' rest, statusReadLoop buf file ret = some (buf', rest, ret || !file.isEmpty) ∧
        BufBounded buf' ∧ rest.length ≤ file.length ∧ (file ≠ [] → rest.length < file.length) := by
  induction file with
  | nil => intro buf ret hb; exact ⟨buf, [], by simp [statusReadLoop], hb, le_rfl, fun h => absurd rfl h⟩
  | cons c file ih =>
      intro buf ret hb
      have hret : (ret || !(c :: file).isEmpty) = true := by simp
      rw [hret]
      by_cases hcr : c = 13
      · obtain ⟨buf', rest, hloop, hb', hle, -⟩ := ih buf true hb
        refine ⟨buf', rest, ?_, hb', by simp only [List.length_cons]; omega,
          fun _ => by simp only [List.length_cons]; omega⟩
        rw [statusReadLoop, if_pos hcr, hloop, Bool.true_or]
      by_cases hlf : c = 10
      · refine ⟨buf, file, ?_, hb, by simp, fun _ => by simp⟩
        rw [statusReadLoop, if_neg hcr, if_pos hlf]
      · obtain ⟨b₁, ok, hw, hb₁, -⟩ := bufWrite_atomic [c] buf hb
        obtain ⟨buf', rest, hloop, hb', hle, -⟩ := ih b₁ true hb₁
        refine ⟨buf', rest, ?_, hb', by simp only [List.length_cons]; omega,
          fun _ => by simp only [List.length_cons]; omega⟩
        simp only [List.length_singleton] at hw
        rw [statusReadLoop, if_neg hcr, if_neg hlf, hw, Option.bind_some, hloop, Bool.true_or]

/-- The loop of `status_read` on a line with no `\r` or `\n` that fits: the line is appended and
the file is left after its `\n`. -/
theorem statusReadLoop_line (line : List UInt8) (hline : ∀ c ∈ line, c ≠ 10 ∧ c ≠ 13)
    (rest : List UInt8) :
    ∀ (buf : Buffer) (ret : Bool), BufBounded buf →
      buf.offset + buf.len + line.length ≤ buf.capacity →
      ∃ buf', statusReadLoop buf (line ++ 10 :: rest) ret = some (buf', rest, true) ∧
        BufBounded buf' ∧ buf'.content = buf.content ++ line ∧ buf'.offset = buf.offset ∧
        buf'.len = buf.len + line.length ∧ buf'.capacity = buf.capacity := by
  induction line with
  | nil =>
      intro buf ret hb _
      exact ⟨buf, by simp [statusReadLoop], hb, by simp, rfl, by simp, rfl⟩
  | cons c line ih =>
      intro buf ret hb hroom
      obtain ⟨hlf, hcr⟩ := hline c List.mem_cons_self
      simp only [List.length_cons, Nat.cast_add, Nat.cast_one] at hroom
      have hroom₁ : buf.offset + buf.len + ([c] : List UInt8).length ≤ buf.capacity := by
        simp only [List.length_singleton, Nat.cast_one]; omega
      have hw : bufWrite buf [c] 0 ([c] : List UInt8).length = some (buf.append [c], true) :=
        hb.bufWrite_eq_append (by simp [bufSizeMax]) hroom₁
      obtain ⟨buf', hloop, hb', hc', ho', hl', hcap'⟩ :=
        ih (fun x hx => hline x (List.mem_cons_of_mem c hx)) (buf.append [c]) true
          (hb.append_bounded hroom₁) (by simp only [Buffer.offset_append, Buffer.len_append,
            Buffer.capacity_append, List.length_singleton, Nat.cast_one]; omega)
      refine ⟨buf', ?_, hb', ?_, ho', ?_, hcap'⟩
      · simp only [List.length_singleton] at hw
        rw [List.cons_append, statusReadLoop, if_neg hcr, if_neg hlf, hw, Option.bind_some, hloop]
      · rw [hc', hb.content_append hroom₁, List.append_assoc, List.singleton_append]
      · rw [hl', Buffer.len_append, List.length_singleton, List.length_cons]
        push_cast; ring

/-- `buf_null_terminate` of a content that does not end in `NUL`, with room for one more byte,
appends the `NUL`. -/
theorem bufNullTerminate_append {b : Buffer} (hb : BufBounded b)
    (hlast : ∀ x ∈ b.content.getLast?, x ≠ 0) (hroom : b.offset + b.len + 1 ≤ b.capacity) :
    bufNullTerminate b = some (b.append [0]) := by
  have hroom₁ : b.offset + b.len + ([0] : List UInt8).length ≤ b.capacity := by simpa using hroom
  have hsafe : bufSafe b 1 = true := (hb.bufSafe_iff 1).mpr ⟨by simp [bufSizeMax], hroom⟩
  have happend : bufNullTerminateAppend b = some (b.append [0]) := by
    have hw : bufWrite b [0] 0 ([0] : List UInt8).length = some (b.append [0], true) :=
      hb.bufWrite_eq_append (by simp [bufSizeMax]) hroom₁
    simp only [List.length_singleton] at hw
    simp only [bufNullTerminateAppend, hsafe, Bool.not_true, Bool.false_eq_true, if_false, hw,
      Option.map_some]
  unfold bufNullTerminate
  rw [hb.bufBlast_eq]
  split_ifs with hlen
  · have hlen' := hb.length_content
    have hload := hb.load_content (i := b.len - 1) (n := 1) (by omega) (by omega) (by omega)
    rw [show b.offset + (b.len - 1) = b.offset + b.len - 1 by ring] at hload
    -- the byte at `BLAST` is the last byte of the content
    have hne : (b.content.drop (b.len - 1).toNat).take (1 : Int).toNat ≠ [0] := by
      have hl : b.content ≠ [] := by
        intro h; rw [h, List.length_nil] at hlen'; omega
      rw [show (b.len - 1).toNat = b.content.length - 1 by omega,
        List.drop_length_sub_one hl, show (1 : Int).toNat = 1 by rfl,
        show [b.content.getLast hl].take 1 = [b.content.getLast hl] from rfl]
      intro h
      exact hlast _ (List.getLast?_eq_some_getLast hl) (List.singleton_inj.mp h)
    dsimp only
    rw [hload]
    simp only [Option.bind_eq_bind, Option.bind_some, if_neg hne, happend]
  · exact happend

theorem content_eq_nil {b : Buffer} (hb : BufBounded b) (h : b.len = 0) : b.content = [] := by
  have := hb.length_content
  rw [h] at this
  exact List.eq_nil_of_length_eq_zero this

/-- `status_read` of a line with no `NUL`, `\r` or `\n` into an empty buffer with room for it
and its `NUL`: the content is the line and the `NUL`, and the file is left after the `\n`. -/
theorem statusRead_line {buf : Buffer} (hb : BufBounded buf) (hlen : buf.len = 0)
    {line : List UInt8} (hline : ∀ c ∈ line, c ≠ 0 ∧ c ≠ 10 ∧ c ≠ 13)
    (hroom : buf.offset + line.length + 1 ≤ buf.capacity) (rest : List UInt8) :
    ∃ buf', statusRead buf (line ++ 10 :: rest) = some (buf', rest, true) ∧ BufBounded buf' ∧
      buf'.content = line ++ [0] ∧ buf'.capacity = buf.capacity := by
  obtain ⟨b₁, hloop, hb₁, hc₁, ho₁, hl₁, hcap₁⟩ :=
    statusReadLoop_line line (fun c hc => (hline c hc).2) rest buf false hb (by omega)
  rw [content_eq_nil hb hlen, List.nil_append] at hc₁
  have hroom₁ : b₁.offset + b₁.len + ([0] : List UInt8).length ≤ b₁.capacity := by
    simp only [List.length_singleton, Nat.cast_one]; omega
  have hlast : ∀ x ∈ b₁.content.getLast?, x ≠ 0 := by
    intro x hx
    rw [hc₁] at hx
    exact (hline x (List.mem_of_getLast? hx)).1
  refine ⟨b₁.append [0], ?_, hb₁.append_bounded hroom₁, ?_, hcap₁⟩
  · rw [statusRead, hloop, Option.bind_some,
      bufNullTerminate_append hb₁ hlast (by simpa using hroom₁), Option.map_some]
  · rw [hb₁.content_append hroom₁, hc₁]

/-- `status_read` is defined on a bounded buffer and keeps it bounded; it reports a line exactly
when the file is not empty, and then consumes at least one byte. -/
theorem statusRead_safe {buf : Buffer} (hb : BufBounded buf) (file : List UInt8) :
    ∃ buf' rest, statusRead buf file = some (buf', rest, !file.isEmpty) ∧ BufBounded buf' ∧
      (file ≠ [] → rest.length < file.length) := by
  obtain ⟨b₁, rest, hloop, hb₁, -, hlt⟩ := statusReadLoop_safe file buf false hb
  obtain ⟨b₂, hnt, hb₂⟩ := bufNullTerminate_safe b₁ hb₁
  refine ⟨b₂, rest, ?_, hb₂, hlt⟩
  rw [statusRead, hloop, Option.bind_some, hnt, Option.map_some, Bool.false_or]

end StatusRead

/-! ### The fields of a line -/

section ParseLine

/-- The three arrays have their 128 bytes. -/
def ReadBufs.Sized (bufs : ReadBufs) : Prop :=
  bufs.cn.length = 128 ∧ bufs.ip.length = 128 ∧ bufs.ip6.length = 128

theorem isFieldEnd_comma_eq_false {c : UInt8} (h0 : c ≠ 0) (h44 : c ≠ 44) :
    isFieldEnd 44 c = false := by
  simp only [isFieldEnd, Bool.or_eq_false_iff, decide_eq_false_iff_not]
  refine ⟨h0, fun h => h44 (UInt8.toNat_inj.mp ?_)⟩
  simp only [UInt8.reduceToNat]
  omega

/-- The three `buf_parse` calls on a line `cn,ip,ip6` whose fields fit in the arrays: each call
returns its field, and the line's fields are the name and the two address fields. -/
theorem ifconfigPoolParseLine_fields (lib : AddrLib) {inBuf : Buffer} (hb : BufBounded inBuf)
    {bufs : ReadBufs} (hbufs : bufs.Sized) {cn ip ip6 : List UInt8}
    (hcn : ∀ c ∈ cn, isFieldEnd 44 c = false) (hip : ∀ c ∈ ip, isFieldEnd 44 c = false)
    (hip6 : ∀ c ∈ ip6, isFieldEnd 44 c = false)
    (hlen : cn.length < 128 ∧ ip.length < 128 ∧ ip6.length < 128)
    (hc : inBuf.content = cn ++ 44 :: (ip ++ 44 :: (ip6 ++ [0]))) :
    ∃ inBuf' bufs', ifconfigPoolParseLine lib inBuf bufs = some (inBuf',
        some ⟨cnOfBytes cn, persistField (getaddr lib) ip, persistField (getIpv6Addr lib) ip6⟩, bufs') ∧
      BufBounded inBuf' ∧ inBuf'.capacity = inBuf.capacity ∧ bufs'.Sized := by
  obtain ⟨hl₁, hl₂, hl₃⟩ := hbufs
  have hend : ∀ rest : List UInt8,
      (44 :: rest = [] ∨ ∃ e rest', 44 :: rest = e :: rest' ∧ isFieldEnd 44 e = true) :=
    fun rest => Or.inr ⟨44, rest, rfl, by decide⟩
  obtain ⟨b₁, l₁, h₁, hs₁, hl₁', hb₁, hc₁⟩ :=
    bufParse_fits hb (show (0 : Int) < 128 by norm_num) hl₁ hcn hc hlen.1 (hend _)
  obtain ⟨b₂, l₂, h₂, hs₂, hl₂', hb₂, hc₂⟩ :=
    bufParse_fits hb₁ (show (0 : Int) < 128 by norm_num) hl₂ hip hc₁ hlen.2.1 (hend _)
  obtain ⟨b₃, l₃, h₃, hs₃, hl₃', hb₃, -⟩ :=
    bufParse_fits hb₂ (show (0 : Int) < 128 by norm_num) hl₃ hip6 hc₂ hlen.2.2 (Or.inr ⟨0, [], rfl, by decide⟩)
  refine ⟨b₃, ⟨l₁, l₂, l₃⟩, ?_, hb₃,
    (bufParse_capacity h₃).trans ((bufParse_capacity h₂).trans (bufParse_capacity h₁)),
    hl₁', hl₂', hl₃'⟩
  simp only [reduceCtorEq, decide_false, Bool.false_and, Bool.not_false] at h₁ h₂ h₃
  simp only [ifconfigPoolParseLine, h₁, h₂, h₃, Option.bind_eq_bind, Option.bind_some,
    Bool.not_true, Bool.false_eq_true, if_false, if_true, hs₁, hs₂, hs₃]
  rfl

/-- On any line, the three calls are defined and keep the buffer and the arrays as they must be,
and a line with fields has for its name the first field of the content, cut to 127 bytes. -/
theorem ifconfigPoolParseLine_safe (lib : AddrLib) {inBuf : Buffer} (hb : BufBounded inBuf)
    {bufs : ReadBufs} (hbufs : bufs.Sized) :
    ∃ inBuf' line bufs', ifconfigPoolParseLine lib inBuf bufs = some (inBuf', line, bufs') ∧
      BufBounded inBuf' ∧ bufs'.Sized ∧ ∀ l ∈ line,
        l.commonName = cnOfBytes ((inBuf.content.takeWhile fun c => !isFieldEnd 44 c).take 127) := by
  obtain ⟨hl₁, hl₂, hl₃⟩ := hbufs
  have h128 : (0 : Int) < 128 := by norm_num
  obtain ⟨b₁, l₁, ok₁, h₁, hb₁, hl₁', hs₁⟩ := bufParse_safe 44 hb h128 hl₁
  obtain ⟨b₂, l₂, ok₂, h₂, hb₂, hl₂', -⟩ := bufParse_safe 44 hb₁ h128 hl₂
  obtain ⟨b₃, l₃, ok₃, h₃, hb₃, hl₃', -⟩ := bufParse_safe 44 hb₂ h128 hl₃
  cases ok₁
  · refine ⟨b₁, none, { cn := l₁, ip := bufs.ip, ip6 := bufs.ip6 }, ?_, hb₁, ⟨hl₁', hl₂, hl₃⟩,
      fun l hl => by cases hl⟩
    simp only [ifconfigPoolParseLine, h₁, Option.bind_eq_bind, Option.bind_some, Bool.not_false,
      if_true]
    rfl
  cases ok₂
  · refine ⟨b₂, none, { cn := l₁, ip := l₂, ip6 := bufs.ip6 }, ?_, hb₂, ⟨hl₁', hl₂', hl₃⟩,
      fun l hl => by cases hl⟩
    simp only [ifconfigPoolParseLine, h₁, h₂, Option.bind_eq_bind, Option.bind_some,
      Bool.not_true, Bool.not_false, Bool.false_eq_true, if_false, if_true]
    rfl
  · refine ⟨b₃, some ⟨cnOfBytes (cString l₁), persistField (getaddr lib) (cString l₂),
      if ok₃ then persistField (getIpv6Addr lib) (cString l₃) else .empty⟩, ⟨l₁, l₂, l₃⟩, ?_, hb₃,
      ⟨hl₁', hl₂', hl₃'⟩, ?_⟩
    · simp only [ifconfigPoolParseLine, h₁, h₂, h₃, Option.bind_eq_bind, Option.bind_some,
        Bool.not_true, Bool.false_eq_true, if_false]
      rfl
    · intro l hl
      cases hl
      rw [hs₁]
      rfl

end ParseLine

/-! ### The handle of a line -/

section Handle

open IfconfigPool (SameConfig)

variable {start endIp : UInt32} {pool : IfconfigPool}

theorem persistField_nil {α : Type} (parse : List UInt8 → Option α) :
    persistField parse [] = .empty := rfl

theorem persistField_of_parse {α : Type} {parse : List UInt8 → Option α} {s : List UInt8}
    (hs : s ≠ []) {a : α} (h : parse s = some a) : persistField parse s = .addr a := by
  rw [persistField, if_pos (List.length_pos_of_ne_nil hs), h]

theorem handleToIpBase_sameConfig {p q : IfconfigPool} (h : SameConfig p q) (i : Nat) :
    ifconfigPoolHandleToIpBase q i = ifconfigPoolHandleToIpBase p i := by
  rw [← h.1]
  simp only [ifconfigPoolHandleToIpBase, h.2]

theorem handleToIpv6Base_sameConfig {p q : IfconfigPool} (h : SameConfig p q) (i : Nat) :
    ifconfigPoolHandleToIpv6Base q i = ifconfigPoolHandleToIpv6Base p i := by
  rw [← h.1]
  simp only [ifconfigPoolHandleToIpv6Base, h.2]

/-- `ifconfig_pool_ip_base_to_handle` inverts `ifconfig_pool_handle_to_ip_base` on the handles
of a pool from `ifconfig_pool_init`. -/
theorem ifconfigPoolIpBaseToHandle_handleToIpBase (hr : PoolRange start endIp pool)
    (h4 : pool.ipv4Enabled = true) {i : Nat} (hi : i < pool.list.length) :
    ifconfigPoolIpBaseToHandle pool (ifconfigPoolHandleToIpBase pool i) = i := by
  have hmax := hr.length_le
  simp only [ifconfigPoolMax] at hmax
  unfold ifconfigPoolIpBaseToHandle
  cases ht : pool.ipv4Type with
  | net30 =>
      have hb := hr.net30 h4 ht
      have hval : ifconfigPoolHandleToIpBase pool i = pool.ipv4Base + (UInt32.ofNat i <<< 2) := by
        simp only [ifconfigPoolHandleToIpBase, h4, hi, and_self, if_true, ht]
      have hshift : ((UInt32.ofNat i <<< 2) >>> 2).toNat = i := by
        rw [UInt32.toNat_shiftRight, UInt32.toNat_shiftLeft, UInt32.toNat_ofNat']
        simp only [UInt32.reduceToNat, Nat.reduceMod, Nat.shiftLeft_eq, Nat.shiftRight_eq_div_pow]
        omega
      dsimp only
      rw [hval, add_sub_cancel_left, hshift, if_neg (by omega)]
  | indiv =>
      have hval : ifconfigPoolHandleToIpBase pool i = pool.ipv4Base + UInt32.ofNat i := by
        simp only [ifconfigPoolHandleToIpBase, h4, hi, and_self, if_true, ht]
      have hsub : toCInt (UInt32.ofNat i).toNat = i := by
        rw [UInt32.toNat_ofNat_of_lt' (show i < 2 ^ 32 by omega), toCInt_of_le (by omega) (by omega)]
      dsimp only
      rw [hval, add_sub_cancel_left, hsub, if_neg (by omega)]

/-- The fields `ifconfig_pool_list` writes for handle `i` read back to handle `i`: through the
IPv4 address where the pool has IPv4, and otherwise through the IPv6 address, where the handle
does not carry out of the last 32 bits of the base. -/
theorem ifconfigPoolLineHandle_list (lib : AddrLib) (hr : PoolRange start endIp pool) {i : Nat}
    (hi : i < pool.list.length)
    (hen : pool.ipv4Enabled = true ∨
      (pool.ipv6Enabled = true ∧ pool.ipv6Base.toNat % 2 ^ 32 + i < 2 ^ 32)) (cn : String) :
    ifconfigPoolLineHandle pool ⟨cn,
      persistField (getaddr lib)
        (if pool.ipv4Enabled then printInAddrT lib (ifconfigPoolHandleToIpBase pool i) else []),
      persistField (getIpv6Addr lib)
        (if pool.ipv6Enabled then printIn6Addr lib (ifconfigPoolHandleToIpv6Base pool i) else [])⟩ = i := by
  unfold ifconfigPoolLineHandle
  cases h4 : pool.ipv4Enabled with
  | true =>
      rw [if_pos rfl, persistField_of_parse (printInAddrT_ne_nil lib _) (getaddr_printInAddrT lib _)]
      dsimp only
      rw [ifconfigPoolIpBaseToHandle_handleToIpBase hr h4 hi]
      split <;> simp
  | false =>
      obtain ⟨h6, hfit⟩ := hen.resolve_left (by simp [h4])
      have haddr : ifconfigPoolHandleToIpv6Base pool i =
          addIn6Addr pool.ipv6Base (UInt32.ofNat i) := by
        rw [ifconfigPoolHandleToIpv6Base, if_pos ⟨h6, hi⟩]
      rw [if_neg Bool.false_ne_true, persistField_nil, if_pos h6, haddr,
        persistField_of_parse (printIn6Addr_ne_nil lib _) (getIpv6Addr_printIn6Addr lib _)]
      dsimp only
      rw [if_pos (by norm_num)]
      exact ifconfigPoolIpv6BaseToHandle_addIn6Addr pool hi hr.length_le hfit

end Handle

/-! ### The loop of `ifconfig_pool_read` -/

section ReadLoop

variable (lib : AddrLib) (fixed : Bool) (now : Int)

/-- The pool after one line with fields `cn`, `ip` and `ip6`: `ifconfig_pool_set` at the line's
handle, where it has one. -/
def persistSet (pool : IfconfigPool) (cn ip ip6 : List UInt8) : IfconfigPool :=
  let line : PersistLine := ⟨cnOfBytes cn, persistField (getaddr lib) ip, persistField (getIpv6Addr lib) ip6⟩
  let h := ifconfigPoolLineHandle pool line
  if 0 ≤ h then ifconfigPoolSet pool line.commonName h.toNat fixed now else pool

/-- One pass of the loop over a line `cn,ip,ip6` that fits in `in` and whose fields fit in the
arrays, with no `NUL`, comma, `\r` or `\n` in a field and no comment mark first: the pool gets
the line's `ifconfig_pool_set`, and the loop goes on after the line's `\n`. -/
theorem ifconfigPoolReadLoop_line (fuel : Nat) (pool : IfconfigPool) {inBuf : Buffer}
    (hb : BufBounded inBuf) (hcap : inBuf.capacity = 256) {bufs : ReadBufs} (hbufs : bufs.Sized)
    (cn ip ip6 : List UInt8) (htext : ∀ c ∈ cn ++ ip ++ ip6, c ≠ 0 ∧ c ≠ 44 ∧ c ≠ 10 ∧ c ≠ 13)
    (hlen : cn.length < 128 ∧ ip.length < 128 ∧ ip6.length < 128)
    (hline : cn.length + ip.length + ip6.length + 2 ≤ 255)
    (hfirst : ∀ c ∈ cn.head?, c ≠ 35 ∧ c ≠ 59) (rest : List UInt8) :
    ∃ inBuf' bufs', BufBounded inBuf' ∧ inBuf'.capacity = 256 ∧ bufs'.Sized ∧
      ifconfigPoolReadLoop lib fixed now (fuel + 1) pool inBuf bufs
          (cn ++ [44] ++ ip ++ [44] ++ ip6 ++ 10 :: rest) =
        ifconfigPoolReadLoop lib fixed now fuel (persistSet lib fixed now pool cn ip ip6)
          inBuf' bufs' rest := by
  have hb₀ : BufBounded { inBuf with len := 0, offset := 0 } :=
    hb.window le_rfl le_rfl (by rw [hcap]; norm_num)
  have hlineText : ∀ c ∈ cn ++ [44] ++ ip ++ [44] ++ ip6, c ≠ 0 ∧ c ≠ 10 ∧ c ≠ 13 := by
    intro c hc
    simp only [List.mem_append, List.mem_singleton] at hc
    rcases hc with (((hc | rfl) | hc) | rfl) | hc
    all_goals first
      | decide
      | exact ⟨(htext c (by simp [hc])).1, (htext c (by simp [hc])).2.2⟩
  obtain ⟨b₁, hread, hb₁, hc₁, hcap₁⟩ := statusRead_line hb₀ rfl hlineText
    (by simp only [List.length_append, List.length_singleton, hcap]; push_cast; omega) rest
  have hfield : ∀ f ∈ [cn, ip, ip6], ∀ c ∈ f, isFieldEnd 44 c = false := by
    intro f hf c hc
    have := htext c (by simp at hf; rcases hf with rfl | rfl | rfl <;> simp [hc])
    exact isFieldEnd_comma_eq_false this.1 this.2.1
  obtain ⟨b₂, bufs', hparse, hb₂, hcap₂, hbufs'⟩ := ifconfigPoolParseLine_fields lib hb₁ hbufs
    (hfield cn (by simp)) (hfield ip (by simp)) (hfield ip6 (by simp)) hlen
    (by rw [hc₁]; simp)
  -- the first byte of the line is that of the name, or the comma after an empty name
  have hhead : (b₁.content).head? = some (cn.head?.getD 44) := by
    rw [hc₁]; cases cn <;> simp
  have hnotComment : ¬(cn.head?.getD 44 = 35 ∨ cn.head?.getD 44 = 59) := by
    cases cn with
    | nil => decide
    | cons x xs => simpa using hfirst x rfl
  have hlen₁ : bufLen b₁ ≠ 0 := by
    rw [hb₁.bufLen_eq]
    have := hb₁.length_content
    rw [hc₁, List.length_append, List.length_singleton] at this
    omega
  refine ⟨b₂, bufs', hb₂, by rw [hcap₂, hcap₁, hcap], hbufs', ?_⟩
  · rw [ifconfigPoolReadLoop, hb.bufInit_eq, if_pos ⟨le_rfl, by rw [hcap]; norm_num⟩]
    simp only [hread, Option.bind_eq_bind, Option.bind_some, Bool.not_true, Bool.false_eq_true,
      if_false, hlen₁, hb₁.bufContents_eq, hhead, hnotComment, hparse]
    rfl

/-- At the end of the file the loop returns the pool. -/
theorem ifconfigPoolReadLoop_nil (fuel : Nat) (pool : IfconfigPool) {inBuf : Buffer}
    (hb : BufBounded inBuf) (bufs : ReadBufs) :
    ifconfigPoolReadLoop lib fixed now (fuel + 1) pool inBuf bufs [] = some pool := by
  have hcap : 0 ≤ inBuf.capacity := le_trans hb.offset_nonneg hb.offset_le
  obtain ⟨b₁, rest, hread, -, -⟩ :=
    statusRead_safe (hb.window le_rfl le_rfl (by simpa using hcap)) []
  rw [ifconfigPoolReadLoop, hb.bufInit_eq, if_pos ⟨le_rfl, hcap⟩]
  simp only [hread, Option.bind_eq_bind, Option.bind_some, List.isEmpty_nil, Bool.not_true,
    Bool.not_false, if_true]
  rfl

/-- The pool after the lines of the handles `hs`: `ifconfig_pool_set` at each handle with a name,
in order. -/
def persistSets (w : IfconfigPool) (hs : List Nat) (pool : IfconfigPool) : IfconfigPool :=
  hs.foldl (fun q i => match (w.list.getD i PoolEntry.clear).commonName with
    | some cn => ifconfigPoolSet q cn i fixed now
    | none => q) pool

open IfconfigPool (SameConfig) in
/-- The lines `ifconfig_pool_list` writes for the handles `hs` of `w` read back, into any pool
with the configuration of `w`, as `ifconfig_pool_set` at each of those handles with the name of
`w`: one pass of the loop per line, and one for the end of the file. -/
theorem ifconfigPoolReadLoop_list {start endIp : UInt32} {w : IfconfigPool}
    (hr : PoolRange start endIp w)
    (hnames : ∀ i, ∀ cn ∈ (w.list.getD i PoolEntry.clear).commonName, PersistableName cn)
    (hen : ∀ i < w.list.length, w.ipv4Enabled = true ∨
      (w.ipv6Enabled = true ∧ w.ipv6Base.toNat % 2 ^ 32 + i < 2 ^ 32)) :
    ∀ (hs : List Nat) (fuel : Nat) (q : IfconfigPool) (inBuf : Buffer) (bufs : ReadBufs),
      (∀ i ∈ hs, i < w.list.length) →
      (statusPrintfLines (hs.filterMap fun i =>
        (w.list.getD i PoolEntry.clear).commonName.map (ifconfigPoolListLine lib w i))).length <
          fuel →
      SameConfig w q → BufBounded inBuf → inBuf.capacity = 256 → bufs.Sized →
      ifconfigPoolReadLoop lib fixed now fuel q inBuf bufs (statusPrintfLines (hs.filterMap
          fun i => (w.list.getD i PoolEntry.clear).commonName.map (ifconfigPoolListLine lib w i))) =
        some (persistSets fixed now w hs q) := by
  intro hs
  induction hs with
  | nil =>
      intro fuel q inBuf bufs _ hfuel _ hb _ _
      obtain ⟨fuel, rfl⟩ : ∃ f, fuel = f + 1 := Nat.exists_eq_add_one.mpr (by simpa [statusPrintfLines] using hfuel)
      exact ifconfigPoolReadLoop_nil lib fixed now fuel q hb bufs
  | cons i hs ih =>
      intro fuel q inBuf bufs hhs hfuel hsame hb hcap hbufs
      have hi := hhs i List.mem_cons_self
      have hhs' : ∀ j ∈ hs, j < w.list.length := fun j hj => hhs j (List.mem_cons_of_mem i hj)
      cases hname : (w.list.getD i PoolEntry.clear).commonName with
      | none =>
          rw [List.filterMap_cons_none (by rw [hname]; rfl)] at hfuel ⊢
          simp only [persistSets, List.foldl_cons, hname]
          exact ih fuel q inBuf bufs hhs' hfuel hsame hb hcap hbufs
      | some cn =>
          have hcn := hnames i cn (by rw [hname]; rfl)
          obtain ⟨hbytes, hfirst⟩ := cnBytes_text hcn
          obtain ⟨fuel, rfl⟩ : ∃ f, fuel = f + 1 := Nat.exists_eq_add_one.mpr (by omega)
          -- the address fields of the line, as the reading pool computes them
          have hq : { w with list := q.list } = q := hsame.1
          have h4 : q.ipv4Enabled = w.ipv4Enabled := by rw [← hq]
          have h6 : q.ipv6Enabled = w.ipv6Enabled := by rw [← hq]
          have hb6 : q.ipv6Base = w.ipv6Base := by rw [← hq]
          set ip : List UInt8 :=
            if w.ipv4Enabled then printInAddrT lib (ifconfigPoolHandleToIpBase w i) else [] with hip
          set ip6 : List UInt8 :=
            if w.ipv6Enabled then printIn6Addr lib (ifconfigPoolHandleToIpv6Base w i) else [] with hip6
          have hiptext : ∀ c ∈ ip, c ≠ 0 ∧ c ≠ 44 ∧ c ≠ 10 ∧ c ≠ 13 := by
            rw [hip]; split_ifs
            · exact printInAddrT_text lib _
            · simp
          have hip6text : ∀ c ∈ ip6, c ≠ 0 ∧ c ≠ 44 ∧ c ≠ 10 ∧ c ≠ 13 := by
            rw [hip6]; split_ifs
            · exact printIn6Addr_text lib _
            · simp
          have hiplen : ip.length ≤ 15 := by
            rw [hip]; split_ifs
            · exact length_printInAddrT lib _
            · simp
          have hip6len : ip6.length ≤ 45 := by
            rw [hip6]; split_ifs
            · exact length_printIn6Addr lib _
            · simp
          have hcnlen : (cnBytes cn).length < 128 := by rw [length_cnBytes]; exact hcn.2.1
          have hline : ifconfigPoolListLine lib w i cn = cnBytes cn ++ [44] ++ ip ++ [44] ++ ip6 :=
            rfl
          obtain ⟨inBuf', bufs', hb', hcap', hbufs', hstep⟩ :=
            ifconfigPoolReadLoop_line lib fixed now fuel q hb hcap hbufs (cnBytes cn) ip ip6
              (by
                intro c hc
                simp only [List.mem_append] at hc
                rcases hc with (hc | hc) | hc
                · exact hbytes c hc
                · exact hiptext c hc
                · exact hip6text c hc)
              ⟨hcnlen, by omega, by omega⟩ (by omega) hfirst _
          have hset : persistSet lib fixed now q (cnBytes cn) ip ip6 =
              ifconfigPoolSet q cn i fixed now := by
            have hhand := ifconfigPoolLineHandle_list lib (hr.of_sameConfig hsame)
              (by rw [hsame.2]; exact hi)
              (by rw [h4, h6, hb6]; exact hen i hi) cn
            rw [h4, h6, handleToIpBase_sameConfig hsame, handleToIpv6Base_sameConfig hsame] at hhand
            simp only [persistSet, cnOfBytes_cnBytes (fun c hc => (hcn.1 c hc).1)]
            rw [hhand, if_pos (by omega)]
            rfl
          rw [List.filterMap_cons_some (by rw [hname]; rfl), statusPrintfLines,
            if_pos (by rw [hline]; simp only [List.length_append, List.length_singleton]; omega),
            hline] at hfuel ⊢
          rw [hstep, hset]
          simp only [persistSets, List.foldl_cons, hname]
          simp only [List.length_append, List.length_cons] at hfuel
          exact ih fuel _ inBuf' bufs' hhs' (by omega)
            (hsame.trans (ifconfigPoolSet_sameConfig q cn i fixed now)) hb' hcap' hbufs'

theorem commonName_ifconfigPoolSet (pool : IfconfigPool) (cn : String) {h : Nat}
    (hh : h < pool.list.length) (j : Nat) :
    ((ifconfigPoolSet pool cn h fixed now).list.getD j PoolEntry.clear).commonName =
      if j = h then some cn else (pool.list.getD j PoolEntry.clear).commonName := by
  by_cases hj : j = h
  · subst hj
    simp [ifconfigPoolSet, List.getD_eq_getElem?_getD, hh]
  · rw [if_neg hj]
    simp [ifconfigPoolSet, List.getD_eq_getElem?_getD, Ne.symm hj]

theorem length_persistSets (w : IfconfigPool) (hs : List Nat) :
    ∀ pool, (persistSets fixed now w hs pool).list.length = pool.list.length := by
  induction hs with
  | nil => intro pool; rfl
  | cons i hs ih =>
      intro pool
      simp only [persistSets, List.foldl_cons] at ih ⊢
      split <;> rw [ih]
      exact List.length_modify ..

/-- From a pool with no names, after the lines of the first `n` handles, the names of those
handles are the names of `w`, and the other entries have none. -/
theorem commonName_persistSets (w pool : IfconfigPool) (hlen : pool.list.length = w.list.length)
    (hclear : ∀ j, (pool.list.getD j PoolEntry.clear).commonName = none) :
    ∀ n ≤ w.list.length, ∀ j,
      ((persistSets fixed now w (List.range n) pool).list.getD j PoolEntry.clear).commonName =
        if j < n then (w.list.getD j PoolEntry.clear).commonName else none := by
  intro n
  induction n with
  | zero => intro _ j; exact hclear j
  | succ n ih =>
      intro hn j
      have hlen' : (persistSets fixed now w (List.range n) pool).list.length = w.list.length := by
        rw [length_persistSets, hlen]
      have ih' := ih (by omega) j
      have hstep : persistSets fixed now w (List.range (n + 1)) pool =
          match (w.list.getD n PoolEntry.clear).commonName with
          | some cn => ifconfigPoolSet (persistSets fixed now w (List.range n) pool) cn n fixed now
          | none => persistSets fixed now w (List.range n) pool := by
        simp only [persistSets, List.range_succ, List.foldl_append, List.foldl_cons,
          List.foldl_nil]
      rw [hstep]
      by_cases hj : j = n
      · subst hj
        cases hname : (w.list.getD j PoolEntry.clear).commonName with
        | none => rw [ih', if_neg (lt_irrefl j), if_pos (Nat.lt_succ_self j)]
        | some cn =>
            rw [commonName_ifconfigPoolSet fixed now _ cn (by omega), if_pos rfl,
              if_pos (Nat.lt_succ_self j)]
      · have hjn : j < n + 1 ↔ j < n := by omega
        cases (w.list.getD n PoolEntry.clear).commonName with
        | none => rw [ih', if_congr hjn rfl rfl]
        | some cn =>
            rw [commonName_ifconfigPoolSet fixed now _ cn (by omega), if_neg hj, ih',
              if_congr hjn rfl rfl]

/-- Every name in the pool is one `ifconfig_pool_read` can record. -/
def NamesRecorded (pool : IfconfigPool) : Prop :=
  ∀ e ∈ pool.list, ∀ cn ∈ e.commonName, RecordedName cn

theorem namesRecorded_ifconfigPoolSet {pool : IfconfigPool} (hpool : NamesRecorded pool)
    {cn : String} (hcn : RecordedName cn) (i : Nat) :
    NamesRecorded (ifconfigPoolSet pool cn i fixed now) := by
  intro e he
  obtain ⟨j, hj, rfl⟩ := List.mem_iff_getElem.mp he
  simp only [ifconfigPoolSet, List.getElem_modify]
  split_ifs
  · intro c hc
    cases hc
    exact hcn
  · exact hpool _ (List.getElem_mem _)

/-- Whatever the file, the loop ends with enough fuel, one pass per line, and every name it
records is one with no comma, fewer than 128 characters and no comment mark first. -/
theorem ifconfigPoolReadLoop_recorded :
    ∀ (fuel : Nat) (pool : IfconfigPool) (inBuf : Buffer) (bufs : ReadBufs) (file : List UInt8),
      file.length < fuel → BufBounded inBuf → bufs.Sized → NamesRecorded pool →
      ∃ pool', ifconfigPoolReadLoop lib fixed now fuel pool inBuf bufs file = some pool' ∧
        NamesRecorded pool' := by
  intro fuel
  induction fuel with
  | zero => intro pool inBuf bufs file hfuel; exact absurd hfuel (Nat.not_lt_zero _)
  | succ fuel ih =>
      intro pool inBuf bufs file hfuel hb hbufs hnames
      have hcap : 0 ≤ inBuf.capacity := le_trans hb.offset_nonneg hb.offset_le
      obtain ⟨b₁, rest, hread, hb₁, hrest⟩ :=
        statusRead_safe (hb.window le_rfl le_rfl (by simpa using hcap)) file
      -- every pass after a read line goes on with the shorter rest of the file
      have hfuel' : file ≠ [] → rest.length < fuel := fun hne => by
        have := hrest hne
        omega
      rw [ifconfigPoolReadLoop, hb.bufInit_eq, if_pos ⟨le_rfl, hcap⟩]
      simp only [hread, Option.bind_eq_bind, Option.bind_some]
      split_ifs with hok hlen
      · exact ⟨pool, rfl, hnames⟩
      · exact ih _ _ _ _ (hfuel' (by simpa using hok)) hb₁ hbufs hnames
      rw [hb₁.bufContents_eq, Option.bind_some]
      -- a line that is not empty has a first byte: the comment check reads it
      cases hc : b₁.content.head? with
      | none =>
          exfalso
          apply hlen
          have h0 := hb₁.length_content
          rw [List.head?_eq_none_iff.mp hc, List.length_nil] at h0
          have := hb₁.len_nonneg
          rw [hb₁.bufLen_eq]
          omega
      | some c =>
          rw [Option.bind_some]
          split_ifs with hcomment
          · exact ih _ _ _ _ (hfuel' (by simpa using hok)) hb₁ hbufs hnames
          obtain ⟨b₂, line, bufs', hparse, hb₂, hbufs', hname⟩ :=
            ifconfigPoolParseLine_safe lib hb₁ hbufs
          rw [hparse, Option.bind_some]
          cases line with
          | none => exact ih _ _ _ _ (hfuel' (by simpa using hok)) hb₂ hbufs' hnames
          | some l =>
              refine ih _ _ _ _ (hfuel' (by simpa using hok)) hb₂ hbufs' ?_
              have hfirst : ∀ c ∈ b₁.content.head?, c ≠ 35 ∧ c ≠ 59 := by
                intro c' hc'
                rw [hc, Option.mem_some_iff] at hc'
                subst hc'
                exact not_or.mp hcomment
              split_ifs
              · exact namesRecorded_ifconfigPoolSet fixed now hnames
                  (hname l rfl ▸ recordedName_field hfirst) _
              · exact hnames

end ReadLoop

/-! ### Writing and reading back -/

section RoundTrip

open IfconfigPool (SameConfig)

/-- A pool `ifconfig_pool_init` builds has IPv4 or IPv6 addresses: with neither its size would
be `0`, which the `ASSERT` refuses. -/
theorem ifconfigPoolInit_enabled {ipv4Pool : Bool} {type : PoolType} {start endIp : UInt32}
    {duplicateCn ipv6Pool : Bool} {ipv6Base : In6Addr} {ipv6Netbits : Int} {pool : IfconfigPool}
    (h : ifconfigPoolInit ipv4Pool type start endIp duplicateCn ipv6Pool ipv6Base ipv6Netbits =
      some pool) :
    pool.ipv4Enabled = true ∨ pool.ipv6Enabled = true := by
  cases ipv4Pool
  swap
  · exact Or.inl (ifconfigPoolInit_spec h).2.2.1
  right
  have hr := range_of_ifconfigPoolInit h
  unfold ifconfigPoolInit at h
  rw [if_neg (not_not.mpr hr)] at h
  cases ipv6Pool
  · simp at h
  rcases h6 : ifconfigPoolInitIpv6 ipv6Base ipv6Netbits with _ | ⟨b6, size6⟩
  · simp [h6] at h
  simp only [h6, Bool.false_eq_true, if_false, if_true, false_and, true_and] at h
  split_ifs at h <;> cases h <;> rfl

/-- The buffer and arrays `ifconfig_pool_read` starts with. -/
theorem ifconfigPoolReadFile_start :
    BufBounded ⟨256, 0, 0, some (List.replicate 256 0)⟩ ∧
      ReadBufs.Sized ⟨List.replicate 128 0, List.replicate 128 0, List.replicate 128 0⟩ :=
  ⟨allocBuf_bounded (show allocBuf 256 = some ⟨256, 0, 0, some (List.replicate 256 0)⟩ from rfl),
    List.length_replicate .., List.length_replicate .., List.length_replicate ..⟩

theorem ifconfig_pool_persist_round_trip (lib : AddrLib) (fixed : Bool) (now : Int)
    {ipv4Pool : Bool} {type : PoolType} {start endIp : UInt32} {duplicateCn ipv6Pool : Bool}
    {ipv6Base : In6Addr} {ipv6Netbits : Int} {fresh : IfconfigPool}
    (hinit : ifconfigPoolInit ipv4Pool type start endIp duplicateCn ipv6Pool ipv6Base ipv6Netbits =
      some fresh)
    (w : IfconfigPool) (hw : SameConfig fresh w) :
    ((∀ i, ∀ cn ∈ (w.list.getD i PoolEntry.clear).commonName, PersistableName cn) →
      (w.ipv4Enabled = true ∨ ∀ i < w.list.length, w.ipv6Base.toNat % 2 ^ 32 + i < 2 ^ 32) →
      ∃ pool', ifconfigPoolReadFile lib fresh fixed now (ifconfigPoolWrite lib w) = some pool' ∧
        ∀ i, (pool'.list.getD i PoolEntry.clear).commonName =
          (w.list.getD i PoolEntry.clear).commonName) ∧
    ∀ file, ∃ pool', ifconfigPoolReadFile lib fresh fixed now file = some pool' ∧
      ∀ e ∈ pool'.list, ∀ cn ∈ e.commonName, RecordedName cn := by
  obtain ⟨-, -, -, -, hclear, hr⟩ := ifconfigPoolInit_spec hinit
  obtain ⟨hin, hbufs⟩ := ifconfigPoolReadFile_start
  have hfresh : ∀ j, (fresh.list.getD j PoolEntry.clear).commonName = none := by
    intro j
    rw [hclear]
    simp [List.getD_eq_getElem?_getD, PoolEntry.clear]
  refine ⟨fun hnames hfit => ?_, fun file => ?_⟩
  · -- a handle the written line does not give by its IPv4 address it gives by its IPv6 one
    have hen : ∀ i < w.list.length, w.ipv4Enabled = true ∨
        (w.ipv6Enabled = true ∧ w.ipv6Base.toNat % 2 ^ 32 + i < 2 ^ 32) := by
      intro i hi
      rcases hfit with h4 | h6
      · exact Or.inl h4
      rcases ifconfigPoolInit_enabled hinit with h4 | h6e
      · left
        rw [← hw.1]
        exact h4
      · right
        refine ⟨?_, h6 i hi⟩
        rw [← hw.1]
        exact h6e
    refine ⟨persistSets fixed now w (List.range w.list.length) fresh, ?_, fun i => ?_⟩
    · exact ifconfigPoolReadLoop_list lib fixed now (hr.of_sameConfig hw) hnames hen
        (List.range w.list.length) _ fresh _ _ (fun i hi => List.mem_range.mp hi)
        (Nat.lt_succ_self _) (IfconfigPool.SameConfig.symm hw) hin rfl hbufs
    · rw [commonName_persistSets fixed now w fresh hw.2.symm hfresh _ le_rfl]
      split_ifs with hi
      · rfl
      · rw [List.getD_eq_default _ _ (by omega)]
        rfl
  · have hnone : NamesRecorded fresh := by
      intro e he cn hcn
      rw [hclear, List.mem_replicate] at he
      rw [he.2] at hcn
      cases hcn
    exact ifconfigPoolReadLoop_recorded lib fixed now _ fresh _ _ file (Nat.lt_succ_self _) hin
      hbufs hnone

/-- A name `ifconfig_pool_read` can record has no comma: a one-entry pool named `ab` comes back.
Of one named `a,b` the line `a,b,10.0.0.0,` reads as the name `a`, the IPv4 field `b`, which is no
address, and the IPv6 field `10.0.0.0`, which `get_ipv6_addr` reads as `::`, the `sin6_addr` of
a `sockaddr_in`; in a pool without IPv6 the handle of `::` is 0, and `a` is recorded there. -/
theorem ifconfig_pool_persist_comma_lost :
    (∃ pool', ifconfigPoolReadFile numericLib
        ⟨false, true, .indiv, 0x0a000000, false, In6Addr.any, List.replicate 4 PoolEntry.clear⟩
        false 0 (ifconfigPoolWrite numericLib
          ⟨false, true, .indiv, 0x0a000000, false, In6Addr.any,
            { PoolEntry.clear with commonName := some (cnOfBytes [97, 98]) } ::
              List.replicate 3 PoolEntry.clear⟩) = some pool' ∧
      (pool'.list.getD 0 PoolEntry.clear).commonName = some (cnOfBytes [97, 98])) ∧
    ifconfigPoolWrite numericLib
        ⟨false, true, .indiv, 0x0a000000, false, In6Addr.any,
          { PoolEntry.clear with commonName := some (cnOfBytes [97, 44, 98]) } ::
            List.replicate 3 PoolEntry.clear⟩ =
      [97, 44, 98, 44, 49, 48, 46, 48, 46, 48, 46, 48, 44, 10] ∧
    getIpv6Addr numericLib [49, 48, 46, 48, 46, 48, 46, 48] = some In6Addr.any ∧
    (∃ pool', ifconfigPoolReadFile numericLib
        ⟨false, true, .indiv, 0x0a000000, false, In6Addr.any, List.replicate 4 PoolEntry.clear⟩
        false 0 (ifconfigPoolWrite numericLib
          ⟨false, true, .indiv, 0x0a000000, false, In6Addr.any,
            { PoolEntry.clear with commonName := some (cnOfBytes [97, 44, 98]) } ::
              List.replicate 3 PoolEntry.clear⟩) = some pool' ∧
      (pool'.list.getD 0 PoolEntry.clear).commonName = some (cnOfBytes [97]) ∧
      (pool'.list.getD 0 PoolEntry.clear).commonName ≠ some (cnOfBytes [97, 44, 98])) := by
  have hinit : ifconfigPoolInit true .indiv 0x0a000000 0x0a000003 false false In6Addr.any 0 =
      some ⟨false, true, .indiv, 0x0a000000, false, In6Addr.any,
        List.replicate 4 PoolEntry.clear⟩ := by decide
  have hfile : ifconfigPoolWrite numericLib
      ⟨false, true, .indiv, 0x0a000000, false, In6Addr.any,
        { PoolEntry.clear with commonName := some (cnOfBytes [97, 44, 98]) } ::
          List.replicate 3 PoolEntry.clear⟩ =
      [97, 44, 98, 44, 49, 48, 46, 48, 46, 48, 46, 48, 44, 10] := by decide +kernel
  refine ⟨?_, hfile, by decide +kernel, ?_⟩
  · have hname : PersistableName (cnOfBytes [97, 98]) := by
      refine ⟨?_, ?_, ?_⟩ <;> simp [toList_cnOfBytes, String.length, Char.ofNat] <;> decide
    obtain ⟨pool', hread, hnames⟩ :=
      (ifconfig_pool_persist_round_trip numericLib false 0 hinit
        ⟨false, true, .indiv, 0x0a000000, false, In6Addr.any,
          { PoolEntry.clear with commonName := some (cnOfBytes [97, 98]) } ::
            List.replicate 3 PoolEntry.clear⟩ ⟨rfl, rfl⟩).1
        (by
          intro i cn hcn
          cases i with
          | zero => cases hcn; exact hname
          | succ i =>
              rw [List.getD_cons_succ, List.getD_eq_getElem?_getD,
                List.getElem?_getD_replicate_default_eq] at hcn
              cases hcn)
        (Or.inl rfl)
    refine ⟨pool', hread, ?_⟩
    rw [hnames 0, List.getD_cons_zero]
  · obtain ⟨pool', hread, -⟩ :=
      (ifconfig_pool_persist_round_trip numericLib false 0 hinit
        ⟨false, true, .indiv, 0x0a000000, false, In6Addr.any,
          { PoolEntry.clear with commonName := some (cnOfBytes [97, 44, 98]) } ::
            List.replicate 3 PoolEntry.clear⟩ ⟨rfl, rfl⟩).2
        [97, 44, 98, 44, 49, 48, 46, 48, 46, 48, 46, 48, 44, 10]
    -- the read of the line `a,b,10.0.0.0,` run to its end
    have htrace : (ifconfigPoolReadFile numericLib
        ⟨false, true, .indiv, 0x0a000000, false, In6Addr.any, List.replicate 4 PoolEntry.clear⟩
        false 0 [97, 44, 98, 44, 49, 48, 46, 48, 46, 48, 46, 48, 44, 10]).map
          (fun p => (p.list.getD 0 PoolEntry.clear).commonName) = some (some (cnOfBytes [97])) := by
      decide +kernel
    rw [hread, Option.map_some, Option.some.injEq] at htrace
    rw [hfile]
    exact ⟨pool', hread, htrace, by rw [htrace]; decide⟩

end RoundTrip

end OpenVpn
