import OpenVpn.Cells
import OpenVpn.AuthToken
import OpenVpn.Buffer

/-! `ntlm_phase_3` of `ntlm.c`: the NTLMv2 type-3 message for an HTTP proxy, built from the
credentials and the base64 text `phase_2` of the type-2 message the proxy sent. The local arrays
are modelled cell by cell (`Cells`), so a store or a `memcpy` past one of them ends the function
with `abort`, and a cell no store reached stays `none` in the bytes sent. `buf2`, cleared before
the decoding, is a byte list read with `memRead`. MD4 and HMAC-MD5 are parameters; the clock and
the eight bytes of `gen_nonce` are inputs. A digest over cells of which some were never written
is itself unwritten. Strings are the lists of their bytes before the `NUL`; the user name and the
password are those of `struct user_pass`, whose fields hold `USER_PASS_LEN` bytes (`pkcs11` says
which of its two values the build has). -/

namespace OpenVpn

/-- The two digests: `gen_md4_hash` of the bytes, and `gen_hmac_md5(data, len, key, result)` of
the key and the bytes. -/
structure NtlmDigests where
  md4 : List UInt8 → Vector UInt8 16
  hmacMd5 : List UInt8 → List UInt8 → Vector UInt8 16

/-- How `ntlm_phase_3` ends. -/
inductive Phase3End where
  /-- It returned `NULL`. -/
  | null
  /-- It returned the base64 text of these bytes, `phase3[0 .. phase3_bufpos)`. -/
  | message (msg : Cells UInt8)
  /-- An access outside a local array, or an `ASSERT` that failed. -/
  | abort
  deriving DecidableEq, Repr

/-- A step of `ntlm_phase_3`: its value, or how the function ended before it. -/
abbrev Phase3M := Except Phase3End

/-- An array access: its result, or the end of the function at the fault. -/
def access {α : Type} : Option α → Phase3M α
  | some a => pure a
  | none => throw .abort

@[simp] theorem Phase3M.throw_bind {α β : Type} (e : Phase3End) (f : α → Phase3M β) :
    (throw e >>= f) = throw e := rfl

@[simp] theorem access_some {α : Type} (a : α) : access (some a) = pure a := rfl

@[simp] theorem access_none {α : Type} : (access none : Phase3M α) = throw .abort := rfl

/-- `'\\'`. -/
def backslashByte : UInt8 := 92

/-- `toupper` in the C locale. -/
def toUpper (c : UInt8) : UInt8 := if 97 ≤ c ∧ c ≤ 122 then c - 32 else c

/-- The bytes `unicodize(dst, src)` writes: each byte of the string and of its terminating `NUL`,
followed by a zero byte. -/
def unicodize (src : List UInt8) : List UInt8 := (src ++ [0]).flatMap fun c => [c, 0]

/-- The `n` bytes `strncpy(dst, src, n)` writes: the string cut to `n` bytes, padded with `NUL`. -/
def strncpyBytes (src : List UInt8) (n : Nat) : List UInt8 :=
  src.take n ++ List.replicate (n - src.length) 0

/-- The eight bytes `gen_timestamp` writes at the clock `now`: tenths of a microsecond since 1601,
a little-endian 64-bit number. -/
def genTimestamp (now : Nat) : List UInt8 :=
  (List.range 8).map fun i => UInt8.ofNat ((now + 11644473600) * 10000000 % 2 ^ 64 / 256 ^ i)

/-- A digest of cells under a key of cells: the digest of the values when every cell was written,
unwritten cells otherwise. -/
def hmacCells (hmac : List UInt8 → List UInt8 → Vector UInt8 16) (key data : Cells UInt8) :
    Cells UInt8 :=
  match key.values, data.values with
  | some k, some d => Cells.ofList (hmac k d).toList
  | _, _ => Cells.uninit 16

/-- The user name and the domain parsed out of `DOMAIN\user` (or `user`), each cut to 127 bytes by
`strncpy`. -/
def ntlmSplitUser (user : List UInt8) : List UInt8 × List UInt8 :=
  match user.findIdx? (· = backslashByte) with
  | none => (user.take 127, [])
  | some j => ((user.drop (j + 1)).take 127, user.take (min j 127))

/-- The array `username[128]`: `strncpy` of 127 bytes, then the `NUL` at its end. -/
def usernameArray (username : List UInt8) : Cells UInt8 :=
  Cells.ofList (strncpyBytes username 127 ++ [0])

/-- The array `domain[128]`: the string and its `NUL`; the cells after them are never written. -/
def domainArray (domain : List UInt8) : Cells UInt8 :=
  Cells.ofList (domain ++ [0]) ++ Cells.uninit (127 - domain.length)

/-- The string in `userdomain`: the user name in upper case, then the domain when both fit. -/
def ntlmUserDomain (username domain : List UInt8) : List UInt8 :=
  username.map toUpper ++ (if username.length + domain.length < 128 then domain else [])

/-- `md4_hash`: MD4 of the password in UTF-16 without its terminating `NUL`, padded with five zero
bytes. -/
def ntlmMd4Stage (digests : NtlmDigests) (pkcs11 : Bool) (password : List UInt8) :
    Phase3M (Cells UInt8) := do
  -- pwbuf[sizeof(p->up.password) * 2]
  let pwbuf ← access ((Cells.uninit (2 * userPassLen pkcs11)).store 0
    (Cells.ofList (unicodize password)))
  -- disregard terminating null
  let pw ← access (pwbuf.load 0 ((unicodize password).length - 2))
  let md4 : Cells UInt8 := match pw.values with
    | some bytes => Cells.ofList (digests.md4 bytes).toList
    | none => Cells.uninit 16
  -- pad to 21 bytes
  pure (md4 ++ Cells.ofList (List.replicate 5 0))

/-- `buf2`: the cleared 512 bytes with the decoded type-2 message written at its start; `NULL`
when the text does not decode. The decoding is given no bound (`size = -1`). -/
def ntlmDecodeStage (phase2 : List UInt8) : Phase3M (List UInt8) :=
  match openvpnBase64Decode phase2 (-1) with
  -- "NTLM: base64 decoding of phase 2 response failed"
  | none => throw .null
  | some decoded => access (memWrite (List.replicate 512 0) 0 decoded)

/-- `ntlmv2_hash`: HMAC-MD5 under the MD4 hash of `userdomain` in UTF-16, through the arrays
`userdomain[128]` and `userdomain_u[256]`. -/
def ntlmHashStage (digests : NtlmDigests) (md4Hash : Cells UInt8) (username domain : List UInt8) :
    Phase3M (Cells UInt8) := do
  -- strcpy(userdomain, username); my_strupr(userdomain)
  let userdomain ← access ((Cells.uninit 128).store 0 (Cells.ofList (username.map toUpper ++ [0])))
  -- strcat(userdomain, domain) when both fit, else "NTLM: Username or domain too long"
  let _ ← if username.length + domain.length < 128 then
      access (userdomain.store username.length (Cells.ofList (domain ++ [0])))
    else pure userdomain
  let userdomainU ← access ((Cells.uninit 256).store 0
    (Cells.ofList (unicodize (ntlmUserDomain username domain))))
  let input ← access (userdomainU.load 0 (2 * (ntlmUserDomain username domain).length))
  -- the key is the MD5 key size of `md4_hash`
  pure (hmacCells digests.hmacMd5 (md4Hash.take 16) input)

/-- The flags of the type-2 message, its four bytes at `0x14` read little endian. -/
def ntlmFlags (b : List UInt8) : Nat :=
  (b.getD 0 0).toNat ||| (b.getD 1 0).toNat <<< 8 ||| (b.getD 2 0).toNat <<< 16 |||
    (b.getD 3 0).toNat <<< 24

/-- `ntlmv2_response[256]` after the header of the NTLMv2 blob, at its offset 16: the 128 cleared
cells of the blob with the signature, the reserved byte, the timestamp, the client nonce and a
zero. -/
def ntlmBlobHeader (now : Nat) (nonce : Vector UInt8 8) : Phase3M (Cells UInt8) := do
  let resp : Cells UInt8 := Cells.uninit 256
  let resp ← access (resp.store 16 (Cells.ofList (List.replicate 128 0)))
  let resp ← access (resp.store 16 (Cells.ofList [1]))
  let resp ← access (resp.store 17 (Cells.ofList [1]))
  let resp ← access (resp.store 20 (Cells.ofList [0]))
  let resp ← access (resp.store 24 (Cells.ofList (genTimestamp now)))
  let resp ← access (resp.store 32 (Cells.ofList nonce.toList))
  access (resp.store 40 (Cells.ofList [0]))

/-- `ntlmv2_response[256]` with the HMAC in front, and `ntlmv2_blob_size`. The blob is at offset
16; with the target information flag the block of `tib_len` bytes at `tib_pos` of `buf2` is copied
to its offset `0x1c`. The HMAC of the challenge and the blob overwrites the challenge and the cells
before it. -/
def ntlmResponse (digests : NtlmDigests) (now : Nat) (nonce : Vector UInt8 8) (buf2 : List UInt8)
    (challenge : List UInt8) (ntlmv2Hash : Cells UInt8) : Phase3M (Cells UInt8 × Nat) := do
  let resp ← ntlmBlobHeader now nonce
  -- Check for Target Information block
  let flags ← access (memRead buf2 0x14 4)
  let (resp, tibLen) ← if ntlmFlags flags &&& 0x00800000 = 0x00800000 then do
      let tibLen := ((← access (memRead buf2 0x28 1)).headD 0).toNat
      -- "NTLM: target information buffer too long for response"
      if tibLen + 0x1c + 16 > 256 then throw .null
      let tibPos := ((← access (memRead buf2 0x2c 1)).headD 0).toNat
      -- "NTLM: phase 2 response from server too long"
      if tibPos + tibLen > 512 then throw .null
      let tib ← access (memRead buf2 tibPos tibLen)
      let resp ← access (resp.store (16 + 0x1c) (Cells.ofList tib))
      pure (resp, tibLen)
    else pure (resp, 0)
  -- Unknown, zero works
  let resp ← access (resp.store (16 + 0x1c + tibLen) (Cells.ofList [0]))
  let blobSize := 0x20 + tibLen
  -- Add challenge from message 2
  let resp ← access (resp.store 8 (Cells.ofList challenge))
  let input ← access (resp.load 8 (blobSize + 8))
  let resp ← access (resp.store 0 (hmacCells digests.hmacMd5 ntlmv2Hash input))
  pure (resp, blobSize)

/-- `add_security_buffer(sb_offset, data, length, msg_buf, &msg_bufpos, msg_bufsize)`: the
message and its next free position. The length and the copy count are the low byte of `length`. -/
def addSecurityBuffer (sbOffset : Nat) (data : Cells UInt8) (length : Nat) (msg : Cells UInt8)
    (pos : Nat) : Phase3M (Cells UInt8 × Nat) := do
  -- "NTLM: security buffer too big for message buffer"
  if pos + length > msg.length then return (msg, pos)
  let msg ← access (msg.store sbOffset (Cells.ofList [UInt8.ofNat length]))
  -- msg_buf[sb_offset + 2] = msg_buf[sb_offset]
  let low ← access (msg.load sbOffset 1)
  let msg ← access (msg.store (sbOffset + 2) low)
  let msg ← access (msg.store (sbOffset + 4) (Cells.ofList [UInt8.ofNat (pos % 256)]))
  let msg ← access (msg.store (sbOffset + 5) (Cells.ofList [UInt8.ofNat (pos / 256 % 256)]))
  let src ← access (data.load 0 (UInt8.ofNat length).toNat)
  let msg ← access (msg.store pos src)
  pure (msg, pos + length)

/-- `"NTLMSSP\0"` as `strcpy` copies it. -/
def ntlmSignature : List UInt8 := [78, 84, 76, 77, 83, 83, 80, 0]

/-- `phase3[464]`, cleared, with the signature, the type, the NTLMv2 response, the user name and
the domain, and the bytes up to `phase3_bufpos`, which `make_base64_string2` encodes. -/
def ntlmMessage (resp : Cells UInt8) (blobSize : Nat) (username domain : List UInt8) :
    Phase3M (Cells UInt8) := do
  let phase3 : Cells UInt8 := Cells.ofList (List.replicate 464 0)
  let phase3 ← access (phase3.store 0 (Cells.ofList ntlmSignature))
  let phase3 ← access (phase3.store 8 (Cells.ofList [3]))
  let (phase3, pos) ← addSecurityBuffer 0x14 resp (blobSize + 16) phase3 0x40
  let (phase3, pos) ← addSecurityBuffer 0x24 (usernameArray username) username.length phase3 pos
  let (phase3, pos) ← addSecurityBuffer 0x1c (domainArray domain) domain.length phase3 pos
  -- lm not used, no workstation name, no session key
  let phase3 ← access (phase3.store 0x10 (Cells.ofList [UInt8.ofNat pos]))
  let phase3 ← access (phase3.store 0x30 (Cells.ofList [UInt8.ofNat pos]))
  let phase3 ← access (phase3.store 0x38 (Cells.ofList [UInt8.ofNat pos]))
  -- negotiate oem, negotiate ntlm
  let phase3 ← access (phase3.store 0x3c (Cells.ofList [2]))
  let phase3 ← access (phase3.store 0x3d (Cells.ofList [2]))
  access (phase3.load 0 pos)

/-- The body of `ntlm_phase_3(p, phase_2, gc)` with the user name and the password of `p->up`. -/
def ntlmPhase3Run (digests : NtlmDigests) (pkcs11 : Bool) (now : Nat) (nonce : Vector UInt8 8)
    (user password phase2 : List UInt8) : Phase3M (Cells UInt8) := do
  -- ASSERT(strlen(p->up.username) > 0); ASSERT(strlen(p->up.password) > 0)
  if user.length = 0 ∨ password.length = 0 then throw .abort
  let (username, domain) := ntlmSplitUser user
  let md4Hash ← ntlmMd4Stage digests pkcs11 password
  let buf2 ← ntlmDecodeStage phase2
  -- extract the challenge from bytes 24-31
  let challenge ← access (memRead buf2 24 8)
  let ntlmv2Hash ← ntlmHashStage digests md4Hash username domain
  let (resp, blobSize) ← ntlmResponse digests now nonce buf2 challenge ntlmv2Hash
  ntlmMessage resp blobSize username domain

/-- `ntlm_phase_3(p, phase_2, gc)`. -/
def ntlmPhase3 (digests : NtlmDigests) (pkcs11 : Bool) (now : Nat) (nonce : Vector UInt8 8)
    (user password phase2 : List UInt8) : Phase3End :=
  match ntlmPhase3Run digests pkcs11 now nonce user password phase2 with
  | .ok msg => .message msg
  | .error e => e

end OpenVpn
