import OpenVpn.Base64
import OpenVpn.BigEndian

/-! `auth_token.c`: the session tokens of `--auth-gen-token`. A token is `SESSION_ID_PREFIX`
followed by the base64 text of `sessid ‖ initial_timestamp ‖ timestamp ‖ HMAC`: 12 random bytes,
two 64-bit times in network order and the HMAC-SHA256, under the server key, of
`username ‖ sessid ‖ initial_timestamp ‖ timestamp`. The keyed HMAC is a function `hmac` of the
bytes it is fed, with its 32 bytes of output as the type says. A renewal does not parse the initial
token: it cuts the base64 text after 16 and after 28 characters. That falls on byte boundaries
because 12 and 9 bytes are whole base64 groups (`authTokenText_slice_sessid`,
`authTokenText_slice_tstamp`). The write `old_tstamp_initial[12] = '\0'` lies past the copy of an
initial token shorter than 39 characters; the model fails there, as it does at an `ASSERT`.
`verify_auth_token` compares times in `uint64_t`, so `now` and the timestamps are taken modulo
`2^64`, and `2 * auth_token_renewal` is an `unsigned int` product. -/

namespace OpenVpn

-- `SESSION_ID_PREFIX`, `"SESS_ID_AT_"`; `AUTH_TOKEN_SESSION_ID_LEN`;
-- `AUTH_TOKEN_SESSION_ID_BASE64_LEN`; `TOKEN_DATA_LEN`: the two timestamps, the session id and the
-- HMAC; `AUTH_TOKEN_HMAC_OK`; `AUTH_TOKEN_EXPIRED`; `AUTH_TOKEN_VALID_EMPTYUSER`
def sessionIdPrefix : List UInt8 :=
  ['S', 'E', 'S', 'S', '_', 'I', 'D', '_', 'A', 'T', '_'].map fun c => UInt8.ofNat c.toNat

def authTokenSessionIdLen : Nat := 12

def authTokenSessionIdBase64Len : Nat := authTokenSessionIdLen * 8 / 6

def tokenDataLen : Nat := 2 * 8 + authTokenSessionIdLen + 32

def authTokenHmacOk : Nat := 1

def authTokenExpired : Nat := 2

def authTokenValidEmptyuser : Nat := 4

/-- `USER_PASS_LEN`, with and without `ENABLE_PKCS11`. -/
def userPassLen (pkcs11 : Bool) : Nat := if pkcs11 then 4096 else 128

/-- The bytes in memory of `htonll((uint64_t)t)`: `t` modulo `2^64`, in network order. -/
def timestampBytes (t : Int) : List UInt8 := BigEndian.encode 8 (t % 2 ^ 64).toNat

/-- The auth-token fields of `struct tls_multi`. -/
structure AuthTokenState where
  authToken : Option (List UInt8)
  authTokenInitial : Option (List UInt8)
  deriving DecidableEq

/-- The bytes `token` that `generate_auth_token` encodes: the session id, the two timestamps and
their HMAC with the username. -/
def authTokenData (hmac : List UInt8 → Vector UInt8 32)
    (username sessid initialTimestamp timestamp : List UInt8) : List UInt8 :=
  sessid ++ initialTimestamp ++ timestamp ++
    (hmac (username ++ sessid ++ initialTimestamp ++ timestamp)).toList

/-- The text of a token: `SESSION_ID_PREFIX` and the characters the encoding loop of
`openvpn_base64_encode` writes for its bytes, which the call returns
(`openvpnBase64Encode_authTokenData`). -/
def authTokenText (hmac : List UInt8 → Vector UInt8 32)
    (username sessid initialTimestamp timestamp : List UInt8) : List UInt8 :=
  sessionIdPrefix ++ base64EncodeLoop (authTokenData hmac username sessid initialTimestamp timestamp)

/-- The session id and initial timestamp a renewal reads from the initial token: the 12
characters after the session id decode to 9 bytes, the first 8 the timestamp, and the 16
characters of the session id to its 12 bytes. -/
def renewalFields (initial : List UInt8) : Option (List UInt8 × List UInt8) :=
  -- old_tstamp_initial[12] = '\0' writes inside the copy of `initial`
  if initial.length < 39 then none
  else
    match openvpnBase64Decode ((initial.drop 27).take 12) 9,
        openvpnBase64Decode ((initial.drop 11).take 16) authTokenSessionIdLen with
    | some oldTstampDecode, some sessid =>
        -- the two `ASSERT`s on the lengths decoded
        if oldTstampDecode.length = 9 ∧ sessid.length = authTokenSessionIdLen then
          some (sessid, oldTstampDecode.take 8)
        else none
    | _, _ => none

/-- `generate_auth_token(up, multi)` at time `now`: `sessidRand` holds the bytes of `rand_bytes`
and `validEmptyuser` the flag `AUTH_TOKEN_VALID_EMPTYUSER` of the active key state. The first token
of a session gets a fresh session id and its own time as initial timestamp and is kept as
`auth_token_initial`; a renewal takes both from `auth_token_initial`. -/
def generateAuthToken (hmac : List UInt8 → Vector UInt8 32) (username : List UInt8)
    (validEmptyuser : Bool) (sessidRand : Vector UInt8 12) (now : Int) (multi : AuthTokenState) :
    Option AuthTokenState :=
  let timestamp := timestampBytes now
  let fields := match multi.authTokenInitial with
    | some initial => renewalFields initial
    | none => some (sessidRand.toList, timestamp)
  fields.bind fun f =>
    let token := authTokenData hmac (if validEmptyuser then [] else username) f.1 f.2 timestamp
    -- the result of `openvpn_base64_encode` is not checked; `b64output` is its string
    (openvpnBase64Encode token).map fun b64 =>
      let sessionToken := sessionIdPrefix ++ b64.2
      { authToken := some sessionToken,
        authTokenInitial := multi.authTokenInitial.or (some sessionToken) }

/-- `check_hmac_token(ctx, b64decoded, username)`. -/
def checkHmacToken (hmac : List UInt8 → Vector UInt8 32) (b64decoded username : List UInt8) : Bool :=
  (hmac (username ++ b64decoded.take (tokenDataLen - 32))).toList ==
    (b64decoded.drop (tokenDataLen - 32)).take 32

/-- The time checks of `verify_auth_token` on the flags `ret` of the HMAC check, with `nowU` the
time as a `uint64_t`. -/
def authTokenTimeFlags (renewal lifetime nowU timestampInitial timestamp ret : Nat) : Nat :=
  let inRenegotiationTime :=
    timestamp ≤ nowU ∧ nowU < (timestamp + (2 * renewal) % 2 ^ 32) % 2 ^ 64
  let ret := if inRenegotiationTime then ret else ret ||| authTokenExpired
  let ret := if timestamp < timestampInitial then ret ||| authTokenExpired else ret
  if lifetime ≠ 0 ∧ (timestampInitial + lifetime) % 2 ^ 64 < nowU then ret ||| authTokenExpired
  else ret

/-- `verify_auth_token(up, multi, session)` at time `now`, with `renewal` and `lifetime` the
`unsigned int` options: the flags, and the username after the call, emptied for a token valid for
the empty username only. The session id check reads the first 27 bytes of both strings. -/
def verifyAuthToken (hmac : List UInt8 → Vector UInt8 32) (pkcs11 : Bool) (renewal lifetime : Nat)
    (now : Int) (multi : AuthTokenState) (username password : List UInt8) : Nat × List UInt8 :=
  match openvpnBase64Decode (password.drop sessionIdPrefix.length) (userPassLen pkcs11) with
  | none => (0, username)
  | some b64decoded =>
      if b64decoded.length ≠ tokenDataLen then (0, username)
      else
        let timestampInitial := BigEndian.decode ((b64decoded.drop 12).take 8)
        let timestamp := BigEndian.decode ((b64decoded.drop 20).take 8)
        let hmacCheck : Option (Nat × List UInt8) :=
          if checkHmacToken hmac b64decoded username then some (authTokenHmacOk, username)
          else if checkHmacToken hmac b64decoded [] then
            some (authTokenHmacOk ||| authTokenValidEmptyuser, [])
          else none
        match hmacCheck with
        | none => (0, username)
        | some (ret, username) =>
            let ret := authTokenTimeFlags renewal lifetime (now % 2 ^ 64).toNat timestampInitial
              timestamp ret
            let ret := match multi.authTokenInitial with
              | some initial =>
                  if initial.take (sessionIdPrefix.length + authTokenSessionIdBase64Len) =
                      password.take (sessionIdPrefix.length + authTokenSessionIdBase64Len) then ret
                  else 0
              | none => ret
            (ret, username)

/-- `generate_auth_token` at each of the times `ts` from the state `multi`: the tokens in order. -/
def generateAuthTokens (hmac : List UInt8 → Vector UInt8 32) (username : List UInt8)
    (validEmptyuser : Bool) (sessidRand : Vector UInt8 12) :
    AuthTokenState → List Int → Option (List (List UInt8) × AuthTokenState)
  | multi, [] => some ([], multi)
  | multi, t :: ts =>
      (generateAuthToken hmac username validEmptyuser sessidRand t multi).bind fun multi =>
        (generateAuthTokens hmac username validEmptyuser sessidRand multi ts).map fun r =>
          (multi.authToken.getD [] :: r.1, r.2)

/-! ### The text of a token -/

section Text

variable (hmac : List UInt8 → Vector UInt8 32)

@[simp] theorem length_sessionIdPrefix : sessionIdPrefix.length = 11 := rfl

@[simp] theorem length_timestampBytes (t : Int) : (timestampBytes t).length = 8 :=
  BigEndian.length_encode 8 _

/-- The HMAC bytes of a token. -/
def authTokenMac (username sessid initialTimestamp timestamp : List UInt8) : List UInt8 :=
  (hmac (username ++ sessid ++ initialTimestamp ++ timestamp)).toList

@[simp] theorem length_authTokenMac (username sessid initialTimestamp timestamp : List UInt8) :
    (authTokenMac hmac username sessid initialTimestamp timestamp).length = 32 := by
  simp [authTokenMac]

variable {username sessid initialTimestamp timestamp : List UInt8}
  (hs : sessid.length = 12) (hi : initialTimestamp.length = 8) (ht : timestamp.length = 8)
include hs hi ht

/-- The base64 text of a token in three parts that fall on byte boundaries: the session id, the
initial timestamp with the first byte of the timestamp, and the rest. -/
theorem authTokenText_eq_parts :
    authTokenText hmac username sessid initialTimestamp timestamp =
      sessionIdPrefix ++ (base64EncodeLoop sessid ++
        (base64EncodeLoop (initialTimestamp ++ timestamp.take 1) ++
          base64EncodeLoop (timestamp.drop 1 ++
            authTokenMac hmac username sessid initialTimestamp timestamp))) := by
  have hsplit : sessid ++ initialTimestamp ++ timestamp ++
      authTokenMac hmac username sessid initialTimestamp timestamp =
      sessid ++ ((initialTimestamp ++ timestamp.take 1) ++
        (timestamp.drop 1 ++ authTokenMac hmac username sessid initialTimestamp timestamp)) := by
    simp only [List.append_assoc]
    rw [← List.append_assoc (timestamp.take 1), List.take_append_drop]
  rw [authTokenText, authTokenData, ← authTokenMac, hsplit,
    base64EncodeLoop_append _ _ (by omega),
    base64EncodeLoop_append _ _ (by simp [hi]; omega)]

omit hi ht in
theorem length_encode_sessid : (base64EncodeLoop sessid).length = 16 := by
  rw [length_base64EncodeLoop _ (by omega), hs]

omit hs in
theorem length_encode_tstamp :
    (base64EncodeLoop (initialTimestamp ++ timestamp.take 1)).length = 12 := by
  rw [length_base64EncodeLoop _ (by simp [hi]; omega)]
  simp [hi, ht]

/-- The prefix and the 16 characters of the session id. -/
theorem authTokenText_take :
    (authTokenText hmac username sessid initialTimestamp timestamp).take 27 =
      sessionIdPrefix ++ base64EncodeLoop sessid := by
  rw [authTokenText_eq_parts hmac hs hi ht, ← List.append_assoc]
  exact List.take_left' (by simp [length_encode_sessid hs])

/-- The 16 characters after the prefix: the session id. -/
theorem authTokenText_slice_sessid :
    ((authTokenText hmac username sessid initialTimestamp timestamp).drop 11).take 16 =
      base64EncodeLoop sessid := by
  rw [authTokenText_eq_parts hmac hs hi ht, List.drop_left' length_sessionIdPrefix]
  exact List.take_left' (length_encode_sessid hs)

/-- The 12 characters after the session id: the initial timestamp and one more byte. -/
theorem authTokenText_slice_tstamp :
    ((authTokenText hmac username sessid initialTimestamp timestamp).drop 27).take 12 =
      base64EncodeLoop (initialTimestamp ++ timestamp.take 1) := by
  rw [authTokenText_eq_parts hmac hs hi ht, ← List.append_assoc,
    List.drop_left' (by simp [length_encode_sessid hs])]
  exact List.take_left' (length_encode_tstamp hi ht)

theorem length_authTokenData :
    (authTokenData hmac username sessid initialTimestamp timestamp).length = 60 := by
  simp [authTokenData, hs, hi, ht]

theorem length_authTokenText :
    (authTokenText hmac username sessid initialTimestamp timestamp).length = 91 := by
  rw [authTokenText, List.length_append, length_base64EncodeLoop_any,
    length_authTokenData hmac hs hi ht, length_sessionIdPrefix]

/-- A renewal reads the session id and the initial timestamp back from the token. -/
theorem renewalFields_authTokenText :
    renewalFields (authTokenText hmac username sessid initialTimestamp timestamp) =
      some (sessid, initialTimestamp) := by
  have htstamp : openvpnBase64Decode (base64EncodeLoop (initialTimestamp ++ timestamp.take 1)) 9 =
      some (initialTimestamp ++ timestamp.take 1) :=
    openvpnBase64Decode_encode (by simp [hi, ht]) (by simp [hi, ht])
  have hsess : openvpnBase64Decode (base64EncodeLoop sessid) authTokenSessionIdLen =
      some sessid :=
    openvpnBase64Decode_encode (by omega) (by simp [hs, authTokenSessionIdLen])
  rw [renewalFields, if_neg (by rw [length_authTokenText hmac hs hi ht]; omega),
    authTokenText_slice_tstamp hmac hs hi ht, authTokenText_slice_sessid hmac hs hi ht, htstamp,
    hsess]
  simp [hi, ht, hs, authTokenSessionIdLen]

/-- The text after the prefix decodes to the 60 bytes of the token. -/
theorem openvpnBase64Decode_authTokenText (size : Int) (hsize : 60 ≤ size) :
    openvpnBase64Decode ((authTokenText hmac username sessid initialTimestamp timestamp).drop 11)
      size = some (sessid ++ initialTimestamp ++ timestamp ++
        authTokenMac hmac username sessid initialTimestamp timestamp) := by
  rw [authTokenText, List.drop_left' length_sessionIdPrefix]
  exact openvpnBase64Decode_encode (by rw [length_authTokenData hmac hs hi ht])
    (by rw [length_authTokenData hmac hs hi ht]; omega)

/-- `openvpn_base64_encode` returns the text of a token: its 60 bytes are far below the `2^29`
where the size of the allocation overflows. -/
theorem openvpnBase64Encode_authTokenData :
    openvpnBase64Encode (authTokenData hmac username sessid initialTimestamp timestamp) =
      some (((base64EncodeLoop (authTokenData hmac username sessid initialTimestamp
          timestamp)).length : Int),
        base64EncodeLoop (authTokenData hmac username sessid initialTimestamp timestamp)) :=
  openvpnBase64Encode_of_lt (by rw [length_authTokenData hmac hs hi ht]; omega)

end Text

/-- The two `ASSERT`s of a renewal: the session id has 12 bytes and the initial timestamp 8. -/
theorem length_of_renewalFields {initial sessid initialTimestamp : List UInt8}
    (h : renewalFields initial = some (sessid, initialTimestamp)) :
    sessid.length = 12 ∧ initialTimestamp.length = 8 := by
  unfold renewalFields at h
  split_ifs at h
  split at h
  · split_ifs at h with hlen
    obtain ⟨rfl, rfl⟩ := Prod.mk.inj (Option.some.inj h)
    simp [hlen.1, hlen.2, authTokenSessionIdLen]
  · simp at h

/-! ### Generating tokens -/

section Generate

variable (hmac : List UInt8 → Vector UInt8 32) (username : List UInt8) (sessidRand : Vector UInt8 12)

/-- The first token of a session carries the random session id and its own time twice. -/
theorem generateAuthToken_first (now : Int) {multi : AuthTokenState}
    (h : multi.authTokenInitial = none) :
    generateAuthToken hmac username false sessidRand now multi =
      some ⟨some (authTokenText hmac username sessidRand.toList (timestampBytes now)
          (timestampBytes now)),
        some (authTokenText hmac username sessidRand.toList (timestampBytes now)
          (timestampBytes now))⟩ := by
  have henc : openvpnBase64Encode (authTokenData hmac username sessidRand.toList
      (timestampBytes now) (timestampBytes now)) = _ :=
    openvpnBase64Encode_authTokenData hmac (by simp) (length_timestampBytes now)
      (length_timestampBytes now)
  simp [generateAuthToken, h, henc, authTokenText]

/-- A renewal takes the session id and the initial timestamp from the initial token and keeps it. -/
theorem generateAuthToken_renew (now : Int) {multi : AuthTokenState}
    {initial sessid initialTimestamp : List UInt8} (h : multi.authTokenInitial = some initial)
    (hf : renewalFields initial = some (sessid, initialTimestamp)) :
    generateAuthToken hmac username false sessidRand now multi =
      some ⟨some (authTokenText hmac username sessid initialTimestamp (timestampBytes now)),
        some initial⟩ := by
  obtain ⟨hs, hi⟩ := length_of_renewalFields hf
  have henc : openvpnBase64Encode (authTokenData hmac username sessid initialTimestamp
      (timestampBytes now)) = _ :=
    openvpnBase64Encode_authTokenData hmac hs hi (length_timestampBytes now)
  simp [generateAuthToken, h, hf, henc, authTokenText]

/-- A run of renewals: one token for each time, and the last one is kept. -/
theorem generateAuthTokens_renewals {initial sessid initialTimestamp : List UInt8}
    (hf : renewalFields initial = some (sessid, initialTimestamp)) (ts : List Int)
    (token : List UInt8) :
    generateAuthTokens hmac username false sessidRand ⟨some token, some initial⟩ ts =
      some (ts.map fun t => authTokenText hmac username sessid initialTimestamp (timestampBytes t),
        ⟨some ((ts.map fun t =>
          authTokenText hmac username sessid initialTimestamp (timestampBytes t)).getLast?.getD
            token), some initial⟩) := by
  induction ts generalizing token with
  | nil => rfl
  | cons t ts ih =>
    rw [generateAuthTokens, generateAuthToken_renew hmac username sessidRand t rfl hf,
      Option.bind_some, ih]
    simp [List.getLast?_cons]

/-- A session: the first token at time `t₀` and renewals at the times `ts`. Every token carries the
random session id and the initial timestamp `t₀`; the first is kept as the initial token. -/
theorem generateAuthTokens_session (t₀ : Int) (ts : List Int) :
    generateAuthTokens hmac username false sessidRand ⟨none, none⟩ (t₀ :: ts) =
      some ((t₀ :: ts).map fun t =>
          authTokenText hmac username sessidRand.toList (timestampBytes t₀) (timestampBytes t),
        ⟨some (authTokenText hmac username sessidRand.toList (timestampBytes t₀)
            (timestampBytes ((t₀ :: ts).getLast (List.cons_ne_nil t₀ ts)))),
          some (authTokenText hmac username sessidRand.toList (timestampBytes t₀)
            (timestampBytes t₀))⟩) := by
  have hf : renewalFields (authTokenText hmac username sessidRand.toList (timestampBytes t₀)
      (timestampBytes t₀)) = some (sessidRand.toList, timestampBytes t₀) :=
    renewalFields_authTokenText hmac (by simp) (length_timestampBytes t₀) (length_timestampBytes t₀)
  rw [generateAuthTokens, generateAuthToken_first hmac username sessidRand t₀ rfl, Option.bind_some,
    generateAuthTokens_renewals hmac username sessidRand hf]
  simp [List.getLast_eq_getLastD]

end Generate

/-! ### Verifying a token -/

/-- The time checks under bounds that rule out wrap-around: a token is in time when `now` lies in
its renewal window and, with a lifetime, not past the initial time plus the lifetime. -/
theorem authTokenTimeFlags_of_lt {renewal lifetime nowU timestampInitial timestamp : Nat}
    (ret : Nat) (hr : 2 * renewal < 2 ^ 32) (hts : timestamp + 2 * renewal < 2 ^ 64)
    (hl : timestampInitial + lifetime < 2 ^ 64) (hle : timestampInitial ≤ timestamp) :
    authTokenTimeFlags renewal lifetime nowU timestampInitial timestamp ret =
      if timestamp ≤ nowU ∧ nowU < timestamp + 2 * renewal ∧
          (lifetime = 0 ∨ nowU ≤ timestampInitial + lifetime) then ret
      else ret ||| authTokenExpired := by
  rw [authTokenTimeFlags, Nat.mod_eq_of_lt hr, Nat.mod_eq_of_lt hts, Nat.mod_eq_of_lt hl]
  simp only [if_neg (Nat.not_lt.mpr hle)]
  by_cases hw : timestamp ≤ nowU ∧ nowU < timestamp + 2 * renewal
  · by_cases hlt : lifetime ≠ 0 ∧ timestampInitial + lifetime < nowU
    · rw [if_pos hw, if_pos hlt, if_neg (by omega)]
    · rw [if_pos hw, if_neg hlt, if_pos (by omega)]
  · have hw' : ¬(timestamp ≤ nowU ∧ nowU < timestamp + 2 * renewal ∧
        (lifetime = 0 ∨ nowU ≤ timestampInitial + lifetime)) := fun h => hw ⟨h.1, h.2.1⟩
    rw [if_neg hw, if_neg hw']
    split_ifs
    · rw [Nat.or_assoc, Nat.or_self]
    · rfl

section Verify

variable (hmac : List UInt8 → Vector UInt8 32)

theorem decode_timestampBytes (t : Int) :
    BigEndian.decode (timestampBytes t) = (t % 2 ^ 64).toNat :=
  BigEndian.decode_encode 8 _ (by omega)

section TokenData

variable {sessid initialTimestamp timestamp : List UInt8} (mac : List UInt8)
  (hs : sessid.length = 12) (hi : initialTimestamp.length = 8)

include hs hi in
theorem tokenData_initialTimestamp :
    ((sessid ++ initialTimestamp ++ timestamp ++ mac).drop 12).take 8 = initialTimestamp := by
  rw [List.append_assoc, List.append_assoc, List.drop_left' hs, List.take_left' hi]

include hs hi in
theorem tokenData_timestamp (ht : timestamp.length = 8) :
    ((sessid ++ initialTimestamp ++ timestamp ++ mac).drop 20).take 8 = timestamp := by
  rw [List.append_assoc, List.drop_left' (by simp [hs, hi]), List.take_left' ht]

include hs hi in
/-- The HMAC check compares the HMAC of the username and the first 28 bytes with the last 32. -/
theorem checkHmacToken_tokenData (ht : timestamp.length = 8) (hm : mac.length = 32)
    (username : List UInt8) :
    checkHmacToken hmac (sessid ++ initialTimestamp ++ timestamp ++ mac) username =
      (authTokenMac hmac username sessid initialTimestamp timestamp == mac) := by
  have hdata : (sessid ++ initialTimestamp ++ timestamp).length = tokenDataLen - 32 := by
    simp [hs, hi, ht, tokenDataLen, authTokenSessionIdLen]
  rw [checkHmacToken, List.take_left' hdata, List.drop_left' hdata,
    List.take_of_length_le (by omega), authTokenMac]
  simp only [List.append_assoc]

end TokenData

variable {username sessid : List UInt8} (hs : sessid.length = 12)
include hs

/-- `verify_auth_token` on a token this server made: the HMAC check decides between the username
the token was made for, the empty username and neither, and the time checks read the two times
back. The session id check passes when the stored initial token has the same first 27 bytes. -/
theorem verifyAuthToken_authTokenText (pkcs11 : Bool) (renewal lifetime : Nat) (now t₀ tk : Int)
    {multi : AuthTokenState} (username' : List UInt8)
    (hm : ∀ initial, multi.authTokenInitial = some initial → initial.take 27 =
      (authTokenText hmac username sessid (timestampBytes t₀) (timestampBytes tk)).take 27) :
    verifyAuthToken hmac pkcs11 renewal lifetime now multi username'
        (authTokenText hmac username sessid (timestampBytes t₀) (timestampBytes tk)) =
      if authTokenMac hmac username' sessid (timestampBytes t₀) (timestampBytes tk) =
          authTokenMac hmac username sessid (timestampBytes t₀) (timestampBytes tk) then
        (authTokenTimeFlags renewal lifetime (now % 2 ^ 64).toNat (t₀ % 2 ^ 64).toNat
          (tk % 2 ^ 64).toNat authTokenHmacOk, username')
      else if authTokenMac hmac [] sessid (timestampBytes t₀) (timestampBytes tk) =
          authTokenMac hmac username sessid (timestampBytes t₀) (timestampBytes tk) then
        (authTokenTimeFlags renewal lifetime (now % 2 ^ 64).toNat (t₀ % 2 ^ 64).toNat
          (tk % 2 ^ 64).toNat (authTokenHmacOk ||| authTokenValidEmptyuser), [])
      else (0, username') := by
  have hdec : openvpnBase64Decode ((authTokenText hmac username sessid (timestampBytes t₀)
      (timestampBytes tk)).drop 11) (userPassLen pkcs11) =
      some (sessid ++ timestampBytes t₀ ++ timestampBytes tk ++
        authTokenMac hmac username sessid (timestampBytes t₀) (timestampBytes tk)) :=
    openvpnBase64Decode_authTokenText hmac hs (length_timestampBytes t₀)
      (length_timestampBytes tk) _ (by unfold userPassLen; split <;> omega)
  have hlen : (sessid ++ timestampBytes t₀ ++ timestampBytes tk ++
      authTokenMac hmac username sessid (timestampBytes t₀) (timestampBytes tk)).length =
      tokenDataLen := by
    simp [hs, tokenDataLen, authTokenSessionIdLen]
  have hcheck := checkHmacToken_tokenData hmac
    (authTokenMac hmac username sessid (timestampBytes t₀) (timestampBytes tk)) hs
    (length_timestampBytes t₀) (length_timestampBytes tk) (length_authTokenMac _ _ _ _ _)
  rw [verifyAuthToken, length_sessionIdPrefix, hdec]
  simp only [hlen, ne_eq, not_true_eq_false, if_false, tokenData_initialTimestamp _ hs
    (length_timestampBytes t₀), tokenData_timestamp _ hs (length_timestampBytes t₀)
    (length_timestampBytes tk), decode_timestampBytes, hcheck, beq_iff_eq]
  -- the session id check: the stored initial token, if any, has the same first 27 bytes
  have h27 : sessionIdPrefix.length + authTokenSessionIdBase64Len = 27 := rfl
  rw [length_sessionIdPrefix] at h27
  rcases hI : multi.authTokenInitial with _ | initial
  · split_ifs <;> rfl
  · split_ifs <;> simp [h27, hm initial hI]

end Verify

/-! ### A session -/

/-- The tokens of one session with `AUTH_TOKEN_VALID_EMPTYUSER` unset, made at non-decreasing
times from `t₀ ≥ 0`. Every token carries the prefix, the random session id and the initial
time `t₀`, which a renewal reads back; the session keeps the first token as its initial token and
the last as its current one. The last token verifies for its username at `now ≥ 0` with exactly
`AUTH_TOKEN_HMAC_OK` in its renewal window and within the lifetime, and is expired otherwise; for
another username whose HMAC on the token data differs, as does that of the empty username, it is
rejected. -/
theorem auth_token_lifecycle (hmac : List UInt8 → Vector UInt8 32) (pkcs11 : Bool)
    (username : List UInt8) (sessidRand : Vector UInt8 12) (renewal lifetime : Nat)
    (hrenewal : renewal ≤ 2147483647 / 2) (hlifetime : lifetime < 2 ^ 32) (t₀ : Int)
    (ts : List Int) (now : Int) (hsorted : (t₀ :: ts).IsChain (· ≤ ·)) (ht₀ : 0 ≤ t₀)
    (htime : ∀ t ∈ t₀ :: ts, t < 2 ^ 63) (hnow : 0 ≤ now ∧ now < 2 ^ 63) :
    ∃ tokens multi,
      generateAuthTokens hmac username false sessidRand ⟨none, none⟩ (t₀ :: ts) =
        some (tokens, multi) ∧
      tokens = (t₀ :: ts).map (fun t =>
        authTokenText hmac username sessidRand.toList (timestampBytes t₀) (timestampBytes t)) ∧
      (∀ token ∈ tokens, token.take 27 = sessionIdPrefix ++ base64EncodeLoop sessidRand.toList ∧
        renewalFields token = some (sessidRand.toList, timestampBytes t₀)) ∧
      multi.authTokenInitial = tokens.head? ∧ multi.authToken = tokens.getLast? ∧
      (verifyAuthToken hmac pkcs11 renewal lifetime now multi username
          (multi.authToken.getD [])).1 =
        (if (t₀ :: ts).getLast (List.cons_ne_nil t₀ ts) ≤ now ∧
            now < (t₀ :: ts).getLast (List.cons_ne_nil t₀ ts) + 2 * renewal ∧
            (lifetime = 0 ∨ now ≤ t₀ + lifetime) then authTokenHmacOk
          else authTokenHmacOk ||| authTokenExpired) ∧
      ∀ username', authTokenMac hmac username' sessidRand.toList (timestampBytes t₀)
          (timestampBytes ((t₀ :: ts).getLast (List.cons_ne_nil t₀ ts))) ≠
          authTokenMac hmac username sessidRand.toList (timestampBytes t₀)
            (timestampBytes ((t₀ :: ts).getLast (List.cons_ne_nil t₀ ts))) →
        authTokenMac hmac [] sessidRand.toList (timestampBytes t₀)
          (timestampBytes ((t₀ :: ts).getLast (List.cons_ne_nil t₀ ts))) ≠
          authTokenMac hmac username sessidRand.toList (timestampBytes t₀)
            (timestampBytes ((t₀ :: ts).getLast (List.cons_ne_nil t₀ ts))) →
        (verifyAuthToken hmac pkcs11 renewal lifetime now multi username'
          (multi.authToken.getD [])).1 = 0 := by
  have hs : sessidRand.toList.length = 12 := by simp
  have hb := length_timestampBytes
  -- the last time lies between `t₀` and `2^63`
  have hlast := List.getLast_mem (List.cons_ne_nil t₀ ts)
  have hle : t₀ ≤ (t₀ :: ts).getLast (List.cons_ne_nil t₀ ts) := by
    rcases List.mem_cons.mp hlast with h | h
    · rw [h]
    · exact List.rel_of_pairwise_cons (List.isChain_iff_pairwise.mp hsorted) h
  have hlt := htime _ hlast
  have hinit : ∀ initial, (⟨some (authTokenText hmac username sessidRand.toList
      (timestampBytes t₀) (timestampBytes ((t₀ :: ts).getLast (List.cons_ne_nil t₀ ts)))),
      some (authTokenText hmac username sessidRand.toList (timestampBytes t₀)
        (timestampBytes t₀))⟩ : AuthTokenState).authTokenInitial = some initial →
      initial.take 27 =
      (authTokenText hmac username sessidRand.toList (timestampBytes t₀)
        (timestampBytes ((t₀ :: ts).getLast (List.cons_ne_nil t₀ ts)))).take 27 := by
    rintro initial ⟨⟩
    rw [authTokenText_take hmac hs (hb _) (hb _), authTokenText_take hmac hs (hb _) (hb _)]
  have hver := fun username' => verifyAuthToken_authTokenText hmac hs pkcs11 renewal lifetime
    now t₀ _ username' hinit
  refine ⟨_, _, generateAuthTokens_session hmac username sessidRand t₀ ts, rfl, ?_, rfl,
    by rw [List.getLast?_map, List.getLast?_eq_some_getLast (List.cons_ne_nil t₀ ts)]; rfl,
    ?_, ?_⟩
  · -- every token of the session has the same prefix, session id and initial time
    intro token htoken
    obtain ⟨t, -, rfl⟩ := List.mem_map.mp htoken
    exact ⟨authTokenText_take hmac hs (hb _) (hb _),
      renewalFields_authTokenText hmac hs (hb _) (hb _)⟩
  · -- the owner of the token: the time checks without wrap-around
    rw [Option.getD_some, hver, if_pos rfl,
      authTokenTimeFlags_of_lt _ (by omega) (by omega) (by omega) (by omega)]
    exact if_congr (by omega) rfl rfl
  · -- another username
    intro username' hne hempty
    rw [Option.getD_some, hver, if_neg hne, if_neg hempty]

/-- Two tokens at times 100 and 200, the second verified at time 250 with a renewal time of an
hour. -/
theorem auth_token_lifecycle_two_tokens :
    ∃ tokens multi, generateAuthTokens (fun _ => Vector.replicate 32 0) [] false
        (Vector.replicate 12 0) ⟨none, none⟩ [100, 200] = some (tokens, multi) ∧
      (verifyAuthToken (fun _ => Vector.replicate 32 0) false 3600 0 250 multi []
        (multi.authToken.getD [])).1 = authTokenHmacOk := by
  obtain ⟨tokens, multi, hgen, -, -, -, -, hver, -⟩ := auth_token_lifecycle
    (fun _ => Vector.replicate 32 0) false [] (Vector.replicate 12 0) 3600 0 (by decide)
    (by decide) 100 [200] 250 (by decide) (by decide) (by decide) (by decide)
  refine ⟨tokens, multi, hgen, ?_⟩
  rw [hver]
  decide

end OpenVpn
