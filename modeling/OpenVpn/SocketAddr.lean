import Mathlib.Data.Nat.Digits.Lemmas
import OpenVpn.Pool
import OpenVpn.BigEndian
import OpenVpn.CharClass

/-! The address texts of `socket.c` that the persist file of the pool is written and read with.
`print_in_addr_t` and `print_in6_addr` print with `inet_ntop`; `getaddr` and `get_ipv6_addr` read
through `get_addr_generic`, which checks and cuts off a `/bits` suffix and calls
`openvpn_getaddrinfo`. That tries `getaddrinfo` with `AI_NUMERICHOST` and no family first, and,
under `GETADDR_RESOLVE` only, a name lookup in the family asked for.

The C library is a parameter (`AddrLib`): `inet_ntop` of each family, the numeric `getaddrinfo`
and the lookup. `get_addr_generic` copies `sin_addr` or `sin6_addr` out of the result for the
family it was asked for, whatever the family of the result, so a result is the bytes at
`ai->ai_addr` as far as a `struct sockaddr_in6` reaches: a dotted quad that `get_ipv6_addr` reads
is a `sockaddr_in`, and its `sin6_addr` is the eight bytes of `sin_zero` and the eight that follow
them in memory. -/

namespace OpenVpn

/-- The 28 bytes from `ai->ai_addr` of the first result of `getaddrinfo`, `sizeof(struct
sockaddr_in6)`: `sin_addr` is at offset 4 and `sin6_addr` at offset 8. -/
structure SockaddrBytes where
  bytes : List UInt8
  length_bytes : bytes.length = 28
  deriving DecidableEq, Repr

/-- The C library under the address texts: `inet_ntop(AF_INET, ...)` of the four bytes of an
`in_addr`, `inet_ntop(AF_INET6, ...)`, the numeric `getaddrinfo` and the `AF_INET6` name lookup,
`none` where they fail. The numeric form of an address reads back as that address, and is a
non-empty text within `INET_ADDRSTRLEN` or `INET6_ADDRSTRLEN` with no `NUL`, comma, `\n`, `\r`
or `/`. -/
structure AddrLib where
  inetNtop4 : List UInt8 → List UInt8
  inetNtop6 : In6Addr → List UInt8
  getaddrinfo : List UInt8 → Option SockaddrBytes
  lookup6 : List UInt8 → Option SockaddrBytes
  getaddrinfo_inetNtop4 : ∀ a, a.length = 4 →
    ∃ sa, getaddrinfo (inetNtop4 a) = some sa ∧ (sa.bytes.drop 4).take 4 = a
  getaddrinfo_inetNtop6 : ∀ a,
    ∃ sa, getaddrinfo (inetNtop6 a) = some sa ∧ (sa.bytes.drop 8).take 16 = a.s6Addr
  inetNtop4_ne_nil : ∀ a, a.length = 4 → inetNtop4 a ≠ []
  inetNtop6_ne_nil : ∀ a, inetNtop6 a ≠ []
  length_inetNtop4 : ∀ a, a.length = 4 → (inetNtop4 a).length ≤ 15
  length_inetNtop6 : ∀ a, (inetNtop6 a).length ≤ 45
  inetNtop4_text : ∀ a, ∀ c ∈ inetNtop4 a, c ≠ 0 ∧ c ≠ 44 ∧ c ≠ 10 ∧ c ≠ 13 ∧ c ≠ 47
  inetNtop6_text : ∀ a, ∀ c ∈ inetNtop6 a, c ≠ 0 ∧ c ≠ 44 ∧ c ≠ 10 ∧ c ≠ 13 ∧ c ≠ 47

variable (lib : AddrLib)

/-- `print_in_addr_t(addr, 0, gc)`: `inet_ntop` of `htonl(addr)`. -/
def printInAddrT (addr : UInt32) : List UInt8 := lib.inetNtop4 (BigEndian.encode 4 addr.toNat)

/-- `print_in6_addr(a6, 0, gc)`. -/
def printIn6Addr (a6 : In6Addr) : List UInt8 := lib.inetNtop6 a6

/-- `strtoul(nptr, &endp, 10)` on an `unsigned long` of 64 bits: the value, `ULONG_MAX` where it
does not fit, negated for a `-` sign, and the text from `endp`, which is `nptr` when there are no
digits. -/
def strtoul10 (s : List UInt8) : Nat × List UInt8 :=
  let t := s.dropWhile isSpace
  let (neg, t) : Bool × List UInt8 := match t with
    | c :: r => if c = 45 then (true, r) else if c = 43 then (false, r) else (false, t)
    | [] => (false, [])
  let ds := t.takeWhile isDigit
  if ds.isEmpty then (0, s)
  else
    let v : Nat := ds.foldl (fun acc c => acc * 10 + (c.toNat - 48)) 0
    let v : Nat := if 2 ^ 64 ≤ v then 2 ^ 64 - 1 else if neg then (2 ^ 64 - v) % 2 ^ 64 else v
    (v, t.dropWhile isDigit)

/-- `openvpn_getaddrinfo(flags, host, NULL, 0, NULL, AF_INET6, &ai)`: the numeric parse, then,
under `GETADDR_RESOLVE`, the name lookup ("RESOLVE: Cannot parse IP address" without it). -/
def openvpnGetaddrinfo (resolve : Bool) (host : List UInt8) : Option SockaddrBytes :=
  match lib.getaddrinfo host with
  | some sa => some sa
  | none => if resolve then lib.lookup6 host else none

/-- `get_addr_generic(af, flags, hostname, network, NULL, 0, NULL, msglevel)` for a family of
`max_bits` bits: a `/bits` suffix is checked with `strtoul` and cut off ("IP prefix '%s': invalid
'/bits' spec (%s)"), and the rest goes to `openvpn_getaddrinfo`. -/
def getAddrGeneric (resolve : Bool) (maxBits : Nat) (hostname : List UInt8) :
    Option SockaddrBytes :=
  match hostname.idxOf? 47 with
  | none => openvpnGetaddrinfo lib resolve hostname
  | some i =>
      let (bits, endp) := strtoul10 (hostname.drop (i + 1))
      if endp ≠ [] ∨ maxBits < bits then none
      else openvpnGetaddrinfo lib resolve (hostname.take i)

/-- `getaddr(GETADDR_HOST_ORDER, hostname, 0, &succeeded, NULL)`: `sin_addr` of the result in host
order, `none` where `succeeded` is false. -/
def getaddr (hostname : List UInt8) : Option UInt32 :=
  (getAddrGeneric lib false 32 hostname).map fun sa =>
    UInt32.ofNat (BigEndian.decode ((sa.bytes.drop 4).take 4))

/-- `get_ipv6_addr(hostname, &addr6, NULL, M_WARN)`: `sin6_addr` of the result. -/
def getIpv6Addr (hostname : List UInt8) : Option In6Addr :=
  (getAddrGeneric lib true 128 hostname).map fun sa =>
    ⟨(sa.bytes.drop 8).take 16, by simp [sa.length_bytes]⟩

/-! ### The numeric forms read back -/

section ReadBack

/-- Without a `/` the whole text goes to `openvpn_getaddrinfo`. -/
theorem getAddrGeneric_of_not_mem {resolve : Bool} {maxBits : Nat} {hostname : List UInt8}
    (h : (47 : UInt8) ∉ hostname) :
    getAddrGeneric lib resolve maxBits hostname = openvpnGetaddrinfo lib resolve hostname := by
  unfold getAddrGeneric
  rw [List.idxOf?_eq_none_iff.mpr h]

/-- The numeric form of an address parses without a name lookup. -/
theorem openvpnGetaddrinfo_of_getaddrinfo {resolve : Bool} {host : List UInt8} {sa : SockaddrBytes}
    (h : lib.getaddrinfo host = some sa) : openvpnGetaddrinfo lib resolve host = some sa := by
  unfold openvpnGetaddrinfo
  rw [h]

theorem getaddr_printInAddrT (addr : UInt32) : getaddr lib (printInAddrT lib addr) = some addr := by
  obtain ⟨sa, hsa, hbytes⟩ : ∃ sa, lib.getaddrinfo (printInAddrT lib addr) = some sa ∧
      (sa.bytes.drop 4).take 4 = BigEndian.encode 4 addr.toNat :=
    lib.getaddrinfo_inetNtop4 _ (BigEndian.length_encode 4 _)
  have hslash : (47 : UInt8) ∉ printInAddrT lib addr := fun h =>
    (lib.inetNtop4_text _ 47 h).2.2.2.2 rfl
  unfold getaddr
  rw [getAddrGeneric_of_not_mem lib hslash, openvpnGetaddrinfo_of_getaddrinfo lib hsa,
    Option.map_some, hbytes, BigEndian.decode_encode 4 _ (by have := addr.toNat_lt; omega),
    UInt32.ofNat_toNat]

theorem getIpv6Addr_printIn6Addr (a6 : In6Addr) : getIpv6Addr lib (printIn6Addr lib a6) = some a6 := by
  obtain ⟨sa, hsa, hbytes⟩ : ∃ sa, lib.getaddrinfo (printIn6Addr lib a6) = some sa ∧
      (sa.bytes.drop 8).take 16 = a6.s6Addr := lib.getaddrinfo_inetNtop6 a6
  have hslash : (47 : UInt8) ∉ printIn6Addr lib a6 := fun h =>
    (lib.inetNtop6_text _ 47 h).2.2.2.2 rfl
  unfold getIpv6Addr
  rw [getAddrGeneric_of_not_mem lib hslash, openvpnGetaddrinfo_of_getaddrinfo lib hsa,
    Option.map_some]
  congr 1
  cases a6
  simp only [In6Addr.mk.injEq]
  exact hbytes

theorem printInAddrT_ne_nil (addr : UInt32) : printInAddrT lib addr ≠ [] :=
  lib.inetNtop4_ne_nil _ (BigEndian.length_encode 4 _)

theorem printIn6Addr_ne_nil (a6 : In6Addr) : printIn6Addr lib a6 ≠ [] := lib.inetNtop6_ne_nil _

theorem length_printInAddrT (addr : UInt32) : (printInAddrT lib addr).length ≤ 15 :=
  lib.length_inetNtop4 _ (BigEndian.length_encode 4 _)

theorem length_printIn6Addr (a6 : In6Addr) : (printIn6Addr lib a6).length ≤ 45 :=
  lib.length_inetNtop6 _

theorem printInAddrT_text (addr : UInt32) :
    ∀ c ∈ printInAddrT lib addr, c ≠ 0 ∧ c ≠ 44 ∧ c ≠ 10 ∧ c ≠ 13 := fun c hc =>
  let h := lib.inetNtop4_text _ c hc
  ⟨h.1, h.2.1, h.2.2.1, h.2.2.2.1⟩

theorem printIn6Addr_text (a6 : In6Addr) :
    ∀ c ∈ printIn6Addr lib a6, c ≠ 0 ∧ c ≠ 44 ∧ c ≠ 10 ∧ c ≠ 13 := fun c hc =>
  let h := lib.inetNtop6_text _ c hc
  ⟨h.1, h.2.1, h.2.2.1, h.2.2.2.1⟩

end ReadBack

/-! ### A numeric C library

The strict dotted quad for `AF_INET`, and for `AF_INET6` eight groups of four lowercase hex
digits with the leading zeros kept, a form `getaddrinfo` reads. The numeric `getaddrinfo` here
reads both into a `sockaddr_in` or a `sockaddr_in6` with port, flow and scope zero, and zero
bytes lie after a `sockaddr_in`; no name resolves. -/

section Intercalate

variable {α : Type}

theorem splitOn_of_not_mem [BEq α] [LawfulBEq α] {x : α} {l : List α} (h : x ∉ l) : l.splitOn x = [l] := by
  have hsplit : ([x].intercalate [l]).splitOn x = [l] :=
    List.splitOn_intercalate x (by simpa using h) (List.cons_ne_nil _ _)
  rwa [List.intercalate_singleton] at hsplit

theorem mem_intercalate_singleton {x c : α} :
    ∀ {ls : List (List α)}, c ∈ [x].intercalate ls → c = x ∨ ∃ l ∈ ls, c ∈ l
  | [], h => by simp at h
  | [l], h => Or.inr ⟨l, List.mem_singleton_self _, by rwa [List.intercalate_singleton] at h⟩
  | l :: l' :: ls, h => by
      rw [List.intercalate_cons_cons, List.mem_append, List.mem_append, List.mem_singleton] at h
      rcases h with (h | h) | h
      · exact Or.inr ⟨l, List.mem_cons_self, h⟩
      · exact Or.inl h
      · rcases mem_intercalate_singleton h with h | ⟨m, hm, hc⟩
        · exact Or.inl h
        · exact Or.inr ⟨m, List.mem_cons_of_mem _ hm, hc⟩

theorem length_intercalate_singleton {x : α} :
    ∀ ls : List (List α), ([x].intercalate ls).length = (ls.map List.length).sum + (ls.length - 1)
  | [] => rfl
  | [l] => by simp
  | l :: l' :: ls => by
      rw [List.intercalate_cons_cons, List.length_append, List.length_append,
        length_intercalate_singleton (l' :: ls)]
      simp only [List.map_cons, List.sum_cons, List.length_cons, List.length_nil]
      omega

end Intercalate

section NumericLib

/-- The digit `d` below 16 as a lowercase character. -/
def digitChar (d : Nat) : UInt8 := UInt8.ofNat (if d < 10 then 48 + d else 87 + d)

/-- `n` in decimal, without leading zeros. -/
def decimalText (n : Nat) : List UInt8 :=
  if n = 0 then [48] else (Nat.digits 10 n).reverse.map digitChar

/-- A non-empty run of decimal digits, as a number. -/
def parseDecimal (s : List UInt8) : Option Nat :=
  if s ≠ [] ∧ s.all isDigit then some (Nat.ofDigits 10 (s.reverse.map fun c => c.toNat - 48))
  else none

/-- A field of a dotted quad: a decimal number of at most 255. -/
def parseOctet (s : List UInt8) : Option UInt8 :=
  (parseDecimal s).bind fun n => if n < 256 then some (UInt8.ofNat n) else none

/-- The dotted quad of the bytes of an `in_addr`. -/
def dottedQuad (a : List UInt8) : List UInt8 := [46].intercalate (a.map fun b => decimalText b.toNat)

/-- The four bytes of a dotted quad. -/
def parseDottedQuad (s : List UInt8) : Option (List UInt8) :=
  match s.splitOn 46 with
  | [p₀, p₁, p₂, p₃] => do
      let b₀ ← parseOctet p₀
      let b₁ ← parseOctet p₁
      let b₂ ← parseOctet p₂
      let b₃ ← parseOctet p₃
      some [b₀, b₁, b₂, b₃]
  | _ => none

/-- The value of a lowercase hex digit. -/
def hexValue (c : UInt8) : Option Nat :=
  if 48 ≤ c ∧ c ≤ 57 then some (c.toNat - 48)
  else if 97 ≤ c ∧ c ≤ 102 then some (c.toNat - 87) else none

/-- A byte as two hex digits. -/
def hexByte (b : UInt8) : List UInt8 := [digitChar (b.toNat / 16), digitChar (b.toNat % 16)]

/-- The bytes in groups of two, each group as four hex digits. -/
def hexGroups : List UInt8 → List (List UInt8)
  | b₀ :: b₁ :: bs => (hexByte b₀ ++ hexByte b₁) :: hexGroups bs
  | _ => []

/-- The two bytes of a group of four hex digits. -/
def parseHexGroup : List UInt8 → Option (List UInt8)
  | [c₀, c₁, c₂, c₃] => do
      let h₀ ← hexValue c₀
      let h₁ ← hexValue c₁
      let h₂ ← hexValue c₂
      let h₃ ← hexValue c₃
      some [UInt8.ofNat (h₀ * 16 + h₁), UInt8.ofNat (h₂ * 16 + h₃)]
  | _ => none

/-- The eight colon-separated groups of an `in6_addr`. -/
def hexColon (a : In6Addr) : List UInt8 := [58].intercalate (hexGroups a.s6Addr)

/-- The address of eight colon-separated groups. -/
def parseHexColon (s : List UInt8) : Option In6Addr :=
  let gs := s.splitOn 58
  if gs.length = 8 then
    (gs.mapM parseHexGroup).bind fun bs =>
      if h : bs.flatten.length = 16 then some ⟨bs.flatten, h⟩ else none
  else none

/-- `getaddrinfo` with `AI_NUMERICHOST`: a `sockaddr_in` (`AF_INET` is 2) and zero bytes after
it, or a `sockaddr_in6` (`AF_INET6` is 10). -/
def numericGetaddrinfo (s : List UInt8) : Option SockaddrBytes :=
  match parseDottedQuad s with
  | some a =>
      if h : a.length = 4 then some ⟨[2, 0, 0, 0] ++ a ++ List.replicate 20 0, by simp [h]⟩
      else none
  | none => (parseHexColon s).map fun a =>
      ⟨[10, 0, 0, 0, 0, 0, 0, 0] ++ a.s6Addr ++ [0, 0, 0, 0], by simp [a.length_s6Addr]⟩

theorem digitChar_text {d : Nat} (h : d < 16) :
    digitChar d ≠ 0 ∧ digitChar d ≠ 44 ∧ digitChar d ≠ 10 ∧ digitChar d ≠ 13 ∧ digitChar d ≠ 47 ∧
      digitChar d ≠ 46 ∧ digitChar d ≠ 58 := by
  interval_cases d <;> decide

theorem hexValue_digitChar {d : Nat} (h : d < 16) : hexValue (digitChar d) = some d := by
  interval_cases d <;> rfl

theorem isDigit_digitChar {d : Nat} (h : d < 10) : isDigit (digitChar d) = true ∧
    (digitChar d).toNat - 48 = d := by
  interval_cases d <;> decide

theorem parseDecimal_decimalText (n : Nat) : parseDecimal (decimalText n) = some n := by
  unfold decimalText
  split_ifs with hn
  · subst hn
    rfl
  have hd : ∀ d ∈ Nat.digits 10 n, d < 10 := fun d hd => Nat.digits_lt_base (by norm_num) hd
  have hne : (Nat.digits 10 n).reverse.map digitChar ≠ [] := by
    simpa using Nat.digits_ne_nil_iff_ne_zero.mpr hn
  have hall : ((Nat.digits 10 n).reverse.map digitChar).all isDigit = true := by
    simp only [List.all_eq_true, List.mem_map, List.mem_reverse]
    rintro c ⟨d, hmem, rfl⟩
    exact (isDigit_digitChar (hd d hmem)).1
  have hvals : ((Nat.digits 10 n).reverse.map digitChar).reverse.map (fun c => c.toNat - 48) =
      Nat.digits 10 n := by
    rw [← List.map_reverse, List.reverse_reverse, List.map_map]
    exact (List.map_congr_left fun d hmem => (isDigit_digitChar (hd d hmem)).2).trans
      (List.map_id _)
  unfold parseDecimal
  rw [if_pos ⟨hne, hall⟩, hvals, Nat.ofDigits_digits]

theorem decimalText_text (n : Nat) :
    ∀ c ∈ decimalText n, c ≠ 0 ∧ c ≠ 44 ∧ c ≠ 10 ∧ c ≠ 13 ∧ c ≠ 47 ∧ c ≠ 46 := by
  intro c hc
  unfold decimalText at hc
  split_ifs at hc
  · rw [List.mem_singleton] at hc
    subst hc
    decide
  · simp only [List.mem_map, List.mem_reverse] at hc
    obtain ⟨d, hd, rfl⟩ := hc
    have := digitChar_text (lt_trans (Nat.digits_lt_base (by norm_num) hd) (by norm_num))
    exact ⟨this.1, this.2.1, this.2.2.1, this.2.2.2.1, this.2.2.2.2.1, this.2.2.2.2.2.1⟩

theorem length_decimalText {n : Nat} (h : n < 256) : (decimalText n).length ≤ 3 := by
  unfold decimalText
  split_ifs
  · simp
  · simpa using (Nat.digits_length_le_iff (by norm_num) n).mpr (lt_trans h (by norm_num))

theorem parseOctet_decimalText (b : UInt8) : parseOctet (decimalText b.toNat) = some b := by
  unfold parseOctet
  rw [parseDecimal_decimalText, Option.bind_some, if_pos b.toNat_lt, UInt8.ofNat_toNat]

theorem dottedQuad_of_length {a : List UInt8} (h : a.length = 4) :
    ∃ b₀ b₁ b₂ b₃, a = [b₀, b₁, b₂, b₃] ∧ dottedQuad a = decimalText b₀.toNat ++ [46] ++
      (decimalText b₁.toNat ++ [46] ++ (decimalText b₂.toNat ++ [46] ++ decimalText b₃.toNat)) := by
  match a, h with
  | [b₀, b₁, b₂, b₃], _ =>
      exact ⟨b₀, b₁, b₂, b₃, rfl, by simp [dottedQuad, List.intercalate_cons_cons]⟩

theorem parseDottedQuad_dottedQuad {a : List UInt8} (h : a.length = 4) :
    parseDottedQuad (dottedQuad a) = some a := by
  have hsep : ∀ l ∈ a.map fun b => decimalText b.toNat, (46 : UInt8) ∉ l := by
    simp only [List.mem_map]
    rintro _ ⟨b, -, rfl⟩ hmem
    exact (decimalText_text _ 46 hmem).2.2.2.2.2 rfl
  have hsplit := List.splitOn_intercalate (46 : UInt8) hsep (by
    rw [Ne, List.map_eq_nil_iff, ← List.length_eq_zero_iff, h]
    decide)
  obtain ⟨b₀, b₁, b₂, b₃, rfl, -⟩ := dottedQuad_of_length h
  unfold parseDottedQuad dottedQuad
  rw [hsplit]
  simp only [List.map_cons, List.map_nil, parseOctet_decimalText, Option.bind_eq_bind,
    Option.bind_some]

theorem hexByte_text (b : UInt8) : ∀ c ∈ hexByte b,
    c ≠ 0 ∧ c ≠ 44 ∧ c ≠ 10 ∧ c ≠ 13 ∧ c ≠ 47 ∧ c ≠ 46 ∧ c ≠ 58 := by
  intro c hc
  simp only [hexByte, List.mem_cons, List.mem_nil_iff, or_false] at hc
  rcases hc with rfl | rfl
  · exact digitChar_text (by have := b.toNat_lt; omega)
  · exact digitChar_text (Nat.mod_lt _ (by norm_num))

theorem hexGroups_text : ∀ (l : List UInt8), ∀ g ∈ hexGroups l, ∀ c ∈ g,
    c ≠ 0 ∧ c ≠ 44 ∧ c ≠ 10 ∧ c ≠ 13 ∧ c ≠ 47 ∧ c ≠ 46 ∧ c ≠ 58
  | b₀ :: b₁ :: bs, g, hg, c, hc => by
      rw [hexGroups, List.mem_cons] at hg
      rcases hg with rfl | hg
      · rcases List.mem_append.mp hc with hc | hc
        · exact hexByte_text b₀ c hc
        · exact hexByte_text b₁ c hc
      · exact hexGroups_text bs g hg c hc
  | [], g, hg, _, _ => by simp [hexGroups] at hg
  | [_], g, hg, _, _ => by simp [hexGroups] at hg

theorem hexColon_text (a : In6Addr) :
    ∀ c ∈ hexColon a, c ≠ 0 ∧ c ≠ 44 ∧ c ≠ 10 ∧ c ≠ 13 ∧ c ≠ 47 ∧ c ≠ 46 := by
  intro c hc
  rcases mem_intercalate_singleton hc with rfl | ⟨g, hg, hcg⟩
  · decide
  · have := hexGroups_text _ g hg c hcg
    exact ⟨this.1, this.2.1, this.2.2.1, this.2.2.2.1, this.2.2.2.2.1, this.2.2.2.2.2.1⟩

/-- The groups of an even number of bytes have four characters each and read back as the
bytes. -/
theorem hexGroups_spec :
    ∀ l : List UInt8, (hexGroups l).map List.length = List.replicate (l.length / 2) 4 ∧
      (l.length % 2 = 0 → ∃ bs, (hexGroups l).mapM parseHexGroup = some bs ∧ bs.flatten = l)
  | b₀ :: b₁ :: bs => by
      obtain ⟨hlen, hparse⟩ := hexGroups_spec bs
      have hbyte : ∀ b : UInt8, hexValue (digitChar (b.toNat / 16)) = some (b.toNat / 16) ∧
          hexValue (digitChar (b.toNat % 16)) = some (b.toNat % 16) ∧
          UInt8.ofNat (b.toNat / 16 * 16 + b.toNat % 16) = b := fun b =>
        ⟨hexValue_digitChar (by have := b.toNat_lt; omega),
          hexValue_digitChar (Nat.mod_lt _ (by norm_num)),
          by rw [show b.toNat / 16 * 16 + b.toNat % 16 = b.toNat by omega, UInt8.ofNat_toNat]⟩
      refine ⟨?_, fun heven => ?_⟩
      · simp only [hexGroups, List.map_cons, hlen, hexByte, List.length_append, List.length_cons,
          List.length_nil]
        rw [show (bs.length + 1 + 1) / 2 = bs.length / 2 + 1 by omega, List.replicate_succ]
      · obtain ⟨rest, hrest, hflat⟩ := hparse (by simp only [List.length_cons] at heven; omega)
        refine ⟨[b₀, b₁] :: rest, ?_, by rw [List.flatten_cons, hflat]; rfl⟩
        obtain ⟨h₀, h₁, h₂⟩ := hbyte b₀
        obtain ⟨h₃, h₄, h₅⟩ := hbyte b₁
        simp only [hexGroups, hexByte, List.cons_append, List.nil_append, List.mapM_cons, hrest,
          parseHexGroup, h₀, h₁, h₃, h₄, Option.bind_eq_bind, Option.bind_some, h₂, h₅]
        rfl
  | [] => ⟨rfl, fun _ => ⟨[], rfl, rfl⟩⟩
  | [_] => ⟨by simp [hexGroups], fun h => by simp at h⟩

theorem length_hexGroups (a : In6Addr) : (hexGroups a.s6Addr).length = 8 := by
  rw [← List.length_map (f := List.length), (hexGroups_spec a.s6Addr).1, List.length_replicate,
    a.length_s6Addr]

theorem length_hexColon (a : In6Addr) : (hexColon a).length = 39 := by
  unfold hexColon
  rw [length_intercalate_singleton, (hexGroups_spec a.s6Addr).1, length_hexGroups,
    a.length_s6Addr]
  rfl

theorem parseHexColon_hexColon (a : In6Addr) : parseHexColon (hexColon a) = some a := by
  obtain ⟨bs, hbs, hflat⟩ := (hexGroups_spec a.s6Addr).2 (by rw [a.length_s6Addr])
  have hne : hexGroups a.s6Addr ≠ [] :=
    List.ne_nil_of_length_pos (by rw [length_hexGroups]; decide)
  have hsplit := List.splitOn_intercalate (58 : UInt8)
    (fun g hg hmem => (hexGroups_text _ g hg 58 hmem).2.2.2.2.2.2 rfl) hne
  have hl : bs.flatten.length = 16 := by rw [hflat, a.length_s6Addr]
  unfold parseHexColon hexColon
  rw [hsplit, if_pos (length_hexGroups a), hbs, Option.bind_some, dif_pos hl]
  obtain ⟨s, hs⟩ := a
  dsimp only at hflat
  subst hflat
  rfl

theorem parseDottedQuad_hexColon (a : In6Addr) : parseDottedQuad (hexColon a) = none := by
  unfold parseDottedQuad
  rw [splitOn_of_not_mem fun h => (hexColon_text a 46 h).2.2.2.2.2 rfl]

/-- The numeric C library of the strict dotted quad and the full hex form. -/
def numericLib : AddrLib where
  inetNtop4 := dottedQuad
  inetNtop6 := hexColon
  getaddrinfo := numericGetaddrinfo
  lookup6 _ := none
  getaddrinfo_inetNtop4 a h := by
    refine ⟨⟨[2, 0, 0, 0] ++ a ++ List.replicate 20 0, by simp [h]⟩, ?_, by simp [h]⟩
    simp only [numericGetaddrinfo, parseDottedQuad_dottedQuad h, dif_pos h]
  getaddrinfo_inetNtop6 a := by
    refine ⟨⟨[10, 0, 0, 0, 0, 0, 0, 0] ++ a.s6Addr ++ [0, 0, 0, 0], by simp [a.length_s6Addr]⟩,
      ?_, by simp [a.length_s6Addr]⟩
    unfold numericGetaddrinfo
    rw [parseDottedQuad_hexColon, parseHexColon_hexColon, Option.map_some]
  inetNtop4_ne_nil a h := by
    obtain ⟨_, _, _, _, -, hq⟩ := dottedQuad_of_length h
    rw [hq]
    simp
  inetNtop6_ne_nil a := List.ne_nil_of_length_pos (by rw [length_hexColon]; decide)
  length_inetNtop4 a h := by
    obtain ⟨b₀, b₁, b₂, b₃, -, hq⟩ := dottedQuad_of_length h
    have := length_decimalText b₀.toNat_lt
    have := length_decimalText b₁.toNat_lt
    have := length_decimalText b₂.toNat_lt
    have := length_decimalText b₃.toNat_lt
    rw [hq]
    simp only [List.length_append, List.length_singleton]
    omega
  length_inetNtop6 a := by rw [length_hexColon]; decide
  inetNtop4_text a c hc := by
    rcases mem_intercalate_singleton hc with rfl | ⟨l, hl, hcl⟩
    · decide
    · obtain ⟨b, -, rfl⟩ := List.mem_map.mp hl
      have := decimalText_text _ c hcl
      exact ⟨this.1, this.2.1, this.2.2.1, this.2.2.2.1, this.2.2.2.2.1⟩
  inetNtop6_text a c hc :=
    let h := hexColon_text a c hc
    ⟨h.1, h.2.1, h.2.2.1, h.2.2.2.1, h.2.2.2.2.1⟩

end NumericLib

end OpenVpn
