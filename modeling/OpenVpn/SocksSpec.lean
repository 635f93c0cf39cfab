import Mathlib.Data.List.TakeWhile
import OpenVpn.Socks

/-! What the SOCKS5 client sends and when it reports success, for every byte stream of the proxy.
The reads are a prefix of the stream (`recvBytes_append`); the CONNECT reply is read to exactly
`4 + alen + 2` bytes with `alen` from ATYP and the fifth byte (`recvSocksReplyLoop_init`). The
reply to the RFC 1929 login is accepted unless both its bytes are wrong, since the test is
`buf[0] != 5 && buf[1] != 0`: a proxy that answers `05 st` passes for every status `st`. -/

namespace OpenVpn

namespace SocksChannel

/-- The reads of `recvBytes` take the bytes at the head of the stream. -/
theorem recvBytes_append (b rest sent : List UInt8) :
    recvBytes b.length ⟨b ++ rest, sent⟩ = (some b, ⟨rest, sent⟩) := by
  induction b with
  | nil => rfl
  | cons c b ih =>
      simp only [List.length_cons, recvBytes, recvByte, List.cons_append, ih]

end SocksChannel

section Login

/-- Two bytes of the reply, read from the head of the stream. -/
theorem recvBytes_two (a b : UInt8) (rest sent : List UInt8) :
    SocksChannel.recvBytes 2 ⟨a :: b :: rest, sent⟩ = (some [a, b], ⟨rest, sent⟩) :=
  SocksChannel.recvBytes_append [a, b] rest sent

/-- For a user name and a password of at most 255 bytes, the login sends its request and accepts
the reply `a b` unless `a ≠ 5` and `b ≠ 0`. -/
theorem socksUsernamePasswordAuth_eq {username password : List UInt8} (hu : username.length ≤ 255)
    (hp : password.length ≤ 255) (a b : UInt8) (rest sent : List UInt8) :
    socksUsernamePasswordAuth (some (username, password)) ⟨a :: b :: rest, sent⟩ =
      (decide (a = 5 ∨ b = 0),
        ⟨rest, sent ++ cStrlenBytes (socksAuthRequest username password)⟩) := by
  rw [socksUsernamePasswordAuth, if_neg (by omega)]
  dsimp only
  rw [SocksChannel.send, recvBytes_two]
  dsimp only
  by_cases h : a ≠ 5 ∧ b ≠ 0
  · rw [if_pos (by simpa using h)]
    simp only [Prod.mk.injEq, and_true]
    simpa [not_or] using h
  · rw [if_neg (by simpa using h)]
    simp only [Prod.mk.injEq, and_true]
    simp only [ne_eq, not_and, not_not] at h
    by_cases ha : a = 5 <;> simp [ha, h]

end Login

section Handshake

/-- With an auth file, the method selection offers method 2; a reply `05 02` leads to the login. -/
theorem socksHandshake_login {authfile : List UInt8} (hauth : authfile ≠ [])
    (creds : Option (List UInt8 × List UInt8)) (rest sent : List UInt8) :
    socksHandshake authfile creds ⟨5 :: 2 :: rest, sent⟩ =
      socksUsernamePasswordAuth creds ⟨rest, sent ++ [5, 1, 2]⟩ := by
  simp only [socksHandshake, if_pos hauth, SocksChannel.send]
  rw [recvBytes_two]
  simp [hauth]

end Handshake

section Reply

/-- ATYP and the length byte give at most 256 bytes of address. -/
theorem socksAddressLength_le {atyp c : UInt8} {alen : Nat} (h : socksAddressLength atyp c = some alen) :
    alen ≤ 256 := by
  unfold socksAddressLength at h
  split at h <;> cases h
  · omega
  · have := c.toNat_lt
    omega
  · omega

/-- Past the fifth byte the loop stores each byte until `len` reaches `4 + alen + 2`. -/
theorem recvSocksReplyLoop_tail (s : SocksReplyLoop) (b rest : List UInt8) (h₅ : 5 ≤ s.len)
    (hend : s.len + b.length = 4 + s.alen + 2) (hbuf : s.len + b.length ≤ 270) :
    recvSocksReplyLoop s (b ++ rest) =
      (some ⟨s.len + b.length, s.atyp, s.alen, s.buf ++ b⟩, rest) := by
  induction b generalizing s with
  | nil =>
      simp only [List.length_nil, Nat.add_zero] at hend
      have hs : (⟨s.len, s.atyp, s.alen, s.buf ++ []⟩ : SocksReplyLoop) = s := by simp
      have hstop : ¬ s.len < 4 + s.alen + 2 := by omega
      rw [List.nil_append, List.length_nil, Nat.add_zero, hs]
      cases rest <;> simp only [recvSocksReplyLoop, if_neg hstop]
  | cons c b ih =>
      simp only [List.length_cons] at hend hbuf
      have hstep : socksReplyStep s c = some ⟨s.len + 1, s.atyp, s.alen, s.buf ++ [c]⟩ := by
        simp [socksReplyStep, show s.len ≠ 3 by omega, show s.len ≠ 4 by omega,
          show s.len < 270 by omega]
      rw [List.cons_append, recvSocksReplyLoop, if_pos (by omega), hstep]
      dsimp only
      rw [ih _ (by simp only; omega) (by simp only; omega) (by simp only; omega)]
      simp only [List.length_cons, List.append_assoc, List.singleton_append]
      congr 3
      omega

/-- Past the fifth byte a stream that ends before `4 + alen + 2` bytes fails the reply. -/
theorem recvSocksReplyLoop_short (s : SocksReplyLoop) (b : List UInt8) (h₅ : 5 ≤ s.len)
    (hshort : s.len + b.length < 4 + s.alen + 2) (hbuf : s.len + b.length ≤ 270) :
    recvSocksReplyLoop s b = (none, []) := by
  induction b generalizing s with
  | nil => simp [recvSocksReplyLoop, show s.len < 4 + s.alen + 2 by omega]
  | cons c b ih =>
      simp only [List.length_cons] at hshort hbuf
      have hstep : socksReplyStep s c = some ⟨s.len + 1, s.atyp, s.alen, s.buf ++ [c]⟩ := by
        simp [socksReplyStep, show s.len ≠ 3 by omega, show s.len ≠ 4 by omega,
          show s.len < 270 by omega]
      rw [recvSocksReplyLoop, if_pos (by omega), hstep]
      exact ih _ (by simp only; omega) (by simp only; omega) (by simp only; omega)

/-- The loop of `recv_socks_reply` from its start, for every stream: five bytes fix ATYP and the
address length `alen`, and the reply is the first `4 + alen + 2` bytes. -/
theorem recvSocksReplyLoop_init (input : List UInt8) :
    recvSocksReplyLoop .init input =
      match input with
      | v :: r :: rsv :: atyp :: c :: more =>
          match socksAddressLength atyp c with
          | none => (none, more)
          | some alen =>
              if alen + 1 ≤ more.length then
                (some ⟨6 + alen, atyp, alen, (v :: r :: rsv :: atyp :: c :: more).take (6 + alen)⟩,
                  more.drop (alen + 1))
              else (none, [])
      | _ => (none, []) := by
  match input with
  | [] | [_] | [_, _] | [_, _, _] | [_, _, _, _] =>
      simp [recvSocksReplyLoop, socksReplyStep, SocksReplyLoop.init]
  | v :: r :: rsv :: atyp :: c :: more =>
      dsimp only
      cases hlen : socksAddressLength atyp c with
      | none => simp [recvSocksReplyLoop, socksReplyStep, SocksReplyLoop.init, hlen]
      | some alen =>
          have hle := socksAddressLength_le hlen
          -- the five bytes that fix ATYP and the address length
          have hfive : recvSocksReplyLoop .init (v :: r :: rsv :: atyp :: c :: more) =
              recvSocksReplyLoop ⟨5, atyp, alen, [v, r, rsv, atyp, c]⟩ more := by
            simp [recvSocksReplyLoop, socksReplyStep, SocksReplyLoop.init, hlen]
          rw [hfive]
          dsimp only
          split_ifs with hmore
          · rw [← List.take_append_drop (alen + 1) more,
              recvSocksReplyLoop_tail _ _ _ (by simp only; omega)
                (by simp only [List.length_take]; omega) (by simp only [List.length_take]; omega)]
            simp only [List.length_take, List.take_append_drop, List.cons_append, List.nil_append]
            congr 3
            · omega
            · simp only [show 6 + alen = alen + 1 + 5 by omega, List.take_succ_cons]
          · exact recvSocksReplyLoop_short _ _ (by simp only; omega) (by simp only; omega)
              (by simp only; omega)

/-- A successful IPv4 reply `05 00 RSV 01 BND.ADDR BND.PORT` is read to its end and accepted. -/
theorem recvSocksReply_ipv4 (rsv : UInt8) (bnd rest sent : List UInt8) (hbnd : bnd.length = 6) :
    recvSocksReply ⟨[5, 0, rsv, 1] ++ bnd ++ rest, sent⟩ =
      (true, ⟨bnd.take 4, (bnd.drop 4).take 2⟩, ⟨rest, sent⟩) := by
  obtain ⟨c, tail, rfl⟩ : ∃ c tail, bnd = c :: tail := List.exists_cons_of_length_pos (by omega)
  have htl : tail.length = 5 := by simpa using hbnd
  rw [recvSocksReply]
  dsimp only
  rw [show [5, 0, rsv, 1] ++ c :: tail ++ rest = 5 :: 0 :: rsv :: 1 :: c :: (tail ++ rest) by simp,
    recvSocksReplyLoop_init]
  simp [socksAddressLength, htl, List.take_left' htl, List.drop_left' htl]

end Reply

section Passthru

/-- With an auth file and credentials of at most 255 bytes, a proxy that selects the login,
answers it with `05 st` and accepts the CONNECT request lets `establish_socks_proxy_passthru`
return without the "socks-error" signal, whatever the status `st` of the login. -/
theorem establish_socks_proxy_passthru_accepts_failed_login
    (getservbyname : List UInt8 → Option Int) {authfile username password host servname : List UInt8}
    (hauth : authfile ≠ []) (hu : username.length ≤ 255) (hp : password.length ≤ 255)
    (hport : portFromServname getservbyname servname ≠ 0)
    (status rsv : UInt8) (bnd rest sent : List UInt8) (hbnd : bnd.length = 6) :
    establishSocksProxyPassthru authfile (some (username, password)) getservbyname host servname
        ⟨[5, 2, 5, status, 5, 0, rsv, 1] ++ bnd ++ rest, sent⟩ =
      (true, ⟨rest, sent ++ [5, 1, 2] ++ cStrlenBytes (socksAuthRequest username password) ++
        socksConnectRequest host (portFromServname getservbyname servname)⟩) := by
  have hlogin : socksHandshake authfile (some (username, password))
      ⟨[5, 2, 5, status, 5, 0, rsv, 1] ++ bnd ++ rest, sent⟩ =
        (true, ⟨[5, 0, rsv, 1] ++ bnd ++ rest,
          sent ++ [5, 1, 2] ++ cStrlenBytes (socksAuthRequest username password)⟩) := by
    rw [show [5, 2, 5, status, 5, 0, rsv, 1] ++ bnd ++ rest =
        5 :: 2 :: 5 :: status :: ([5, 0, rsv, 1] ++ bnd ++ rest) by simp,
      socksHandshake_login hauth, socksUsernamePasswordAuth_eq hu hp]
    simp
  rw [establishSocksProxyPassthru, hlogin]
  dsimp only
  rw [if_neg hport, SocksChannel.send]
  dsimp only
  rw [recvSocksReply_ipv4 rsv bnd rest _ hbnd]

/-- Login status 1, a failure in RFC 1929, for the user `u` with the password `p`, a CONNECT to
`h` port 1194 and the reply `05 00 00 01 10.0.0.1:1194`. -/
theorem establish_socks_proxy_passthru_accepts_login_status_1 :
    establishSocksProxyPassthru [1] (some ([117], [112])) (fun _ => none) [104] [49, 49, 57, 52]
        ⟨[5, 2, 5, 1, 5, 0, 0, 1] ++ [10, 0, 0, 1, 4, 170] ++ [], []⟩ =
      (true, ⟨[], [] ++ [5, 1, 2] ++ cStrlenBytes (socksAuthRequest [117] [112]) ++
        socksConnectRequest [104] (portFromServname (fun _ => none) [49, 49, 57, 52])⟩) :=
  establish_socks_proxy_passthru_accepts_failed_login (fun _ => none) (by decide) (by decide)
    (by decide) (by decide) 1 0 [10, 0, 0, 1, 4, 170] [] [] rfl

end Passthru

end OpenVpn
