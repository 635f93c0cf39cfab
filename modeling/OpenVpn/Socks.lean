import Mathlib
import OpenVpn.CharClass

/-! The SOCKS5 client of `socks.c` (RFC 1928, with the username and password method of RFC 1929):
`socks_handshake`, `socks_username_password_auth`, `recv_socks_reply`, `port_from_servname`,
`establish_socks_proxy_passthru` and `establish_socks_proxy_udpassoc`. The connection to the proxy
is a `SocksChannel`: the bytes the proxy has still to send and the bytes the client has sent. A
read of an empty stream stands for each way a read ends without a byte (the poll timeout, an error
of `select` or `recv`, the end of the stream, a signal); every `send` writes all its bytes. The
credentials `get_user_pass` returns and the `s_port` that `getservbyname` returns are inputs.
Strings are the lists of their bytes before the `NUL`. -/

namespace OpenVpn

/-- The TCP connection to the proxy. -/
structure SocksChannel where
  /-- The bytes the proxy sends from here on. -/
  input : List UInt8
  /-- The bytes the client has sent. -/
  sent : List UInt8
  deriving DecidableEq, Repr

namespace SocksChannel

/-- `send(sd, b, len, MSG_NOSIGNAL)`, all of it. -/
def send (ch : SocksChannel) (b : List UInt8) : SocksChannel := { ch with sent := ch.sent ++ b }

/-- `recv(sd, &c, 1, MSG_NOSIGNAL)` after a `select` that found the socket readable. -/
def recvByte (ch : SocksChannel) : Option UInt8 × SocksChannel :=
  match ch.input with
  | [] => (none, ch)
  | c :: rest => (some c, { ch with input := rest })

/-- The loop `while (len < n)` of `socks_handshake` and `socks_username_password_auth`: `n` bytes
read one at a time into `buf`, or `none` at the first read that fails. -/
def recvBytes : Nat → SocksChannel → Option (List UInt8) × SocksChannel
  | 0, ch => (some [], ch)
  | n + 1, ch =>
      match ch.recvByte with
      | (none, ch) => (none, ch)
      | (some c, ch) =>
          match recvBytes n ch with
          | (none, ch) => (none, ch)
          | (some buf, ch) => (some (c :: buf), ch)

@[simp] theorem input_send (ch : SocksChannel) (b : List UInt8) : (ch.send b).input = ch.input :=
  rfl

@[simp] theorem sent_send (ch : SocksChannel) (b : List UInt8) :
    (ch.send b).sent = ch.sent ++ b := rfl

end SocksChannel

/-- The bytes `snprintf(to_send, sizeof(to_send), "\x01%c%s%c%s", ...)` writes for a user name and
a password of at most 255 bytes each: they fit in the 516 bytes of `to_send`. -/
def socksAuthRequest (username password : List UInt8) : List UInt8 :=
  [1, UInt8.ofNat username.length] ++ username ++ [UInt8.ofNat password.length] ++ password

/-- `strlen` of a byte array: the bytes before the first `NUL`. -/
def cStrlenBytes (b : List UInt8) : List UInt8 := b.takeWhile (· ≠ 0)

/-- `socks_username_password_auth`: the RFC 1929 request, and the two bytes of the reply. -/
def socksUsernamePasswordAuth (creds : Option (List UInt8 × List UInt8)) (ch : SocksChannel) :
    Bool × SocksChannel :=
  match creds with
  -- "SOCKS failed to get username/password."
  | none => (false, ch)
  | some (username, password) =>
      -- "SOCKS username and/or password exceeds 255 characters."
      if username.length > 255 ∨ password.length > 255 then (false, ch)
      else
        -- send(sd, to_send, strlen(to_send), MSG_NOSIGNAL)
        let ch := ch.send (cStrlenBytes (socksAuthRequest username password))
        match ch.recvBytes 2 with
        | (none, ch) => (false, ch)
        | (some buf, ch) =>
            -- VER = 5, SUCCESS = 0 --> auth success
            if buf.getD 0 0 ≠ 5 ∧ buf.getD 1 0 ≠ 0 then (false, ch)
            else (true, ch)

/-- `socks_handshake`: the method selection, its reply, and the login when the proxy chose it.
`authfile` is `p->authfile`, `creds` what `get_user_pass` returns for it. -/
def socksHandshake (authfile : List UInt8) (creds : Option (List UInt8 × List UInt8))
    (ch : SocksChannel) : Bool × SocksChannel :=
  -- VER = 5, NMETHODS = 1, METHODS = [0 (no auth)] or [2 (plain login)]
  let method : UInt8 := if authfile ≠ [] then 2 else 0
  let ch := ch.send [5, 1, method]
  match ch.recvBytes 2 with
  | (none, ch) => (false, ch)
  | (some buf, ch) =>
      -- "socks_handshake: Socks proxy returned bad status"
      if buf.getD 0 0 ≠ 5 then (false, ch)
      -- "socks_handshake: Socks proxy returned unexpected auth"
      else if buf.getD 1 0 ≠ method then (false, ch)
      else match buf.getD 1 0 with
        | 0 => (true, ch)
        | 2 =>
            -- "server asked for username/login auth but we were not provided any credentials"
            if authfile = [] then (false, ch)
            else socksUsernamePasswordAuth creds ch
        -- "socks_handshake: unknown SOCKS auth method"
        | _ => (false, ch)

/-- The address length `recv_socks_reply` takes from ATYP and the fifth byte `c` of the reply:
`none` for "Socks proxy returned bad address type". -/
def socksAddressLength (atyp c : UInt8) : Option Nat :=
  match atyp with
  -- IP V4
  | 1 => some 4
  -- DOMAINNAME: 1 byte length, <n> bytes name
  | 3 => some (c.toNat + 1)
  -- IP V6
  | 4 => some 16
  | _ => none

/-- The locals of the loop of `recv_socks_reply`: `len`, `atyp`, `alen` and the bytes stored in
`buf[270]`. -/
structure SocksReplyLoop where
  len : Nat
  atyp : UInt8
  alen : Nat
  buf : List UInt8
  deriving DecidableEq, Repr

/-- The loop before its first byte. -/
def SocksReplyLoop.init : SocksReplyLoop := ⟨0, 0, 0, []⟩

/-- One byte `c` of the reply: ATYP at index 3, the address length fixed at index 4, the byte
stored while it fits in `buf`. -/
def socksReplyStep (s : SocksReplyLoop) (c : UInt8) : Option SocksReplyLoop := do
  let atyp := if s.len = 3 then c else s.atyp
  let alen ← if s.len = 4 then socksAddressLength atyp c else some s.alen
  pure ⟨s.len + 1, atyp, alen, if s.len < 270 then s.buf ++ [c] else s.buf⟩

/-- The loop `while (len < 4 + alen + 2)` of `recv_socks_reply` over the bytes the proxy sends:
the locals at its end, or `none` when a read fails or the address type is bad, and the bytes left
in the stream. -/
def recvSocksReplyLoop (s : SocksReplyLoop) : List UInt8 → Option SocksReplyLoop × List UInt8
  | [] => if s.len < 4 + s.alen + 2 then (none, []) else (some s, [])
  | c :: rest =>
      if s.len < 4 + s.alen + 2 then
        match socksReplyStep s c with
        | none => (none, rest)
        | some s' => recvSocksReplyLoop s' rest
      else (some s, c :: rest)

/-- `struct sockaddr_in` as `recv_socks_reply` fills it: address and port in network order. -/
structure SocksRelay where
  addr : List UInt8
  port : List UInt8
  deriving DecidableEq, Repr

/-- `AF_INET`, `INADDR_ANY`, port 0. -/
def SocksRelay.any : SocksRelay := ⟨[0, 0, 0, 0], [0, 0]⟩

/-- `recv_socks_reply(sd, addr, ...)`: whether the reply was a success, and the address it leaves
in `*addr`. -/
def recvSocksReply (ch : SocksChannel) : Bool × SocksRelay × SocksChannel :=
  match recvSocksReplyLoop .init ch.input with
  | (none, rest) => (false, .any, { ch with input := rest })
  | (some s, rest) =>
      let ch := { ch with input := rest }
      -- VER == 5 && REP == 0 (succeeded), else "Socks proxy returned bad reply"
      if s.buf.getD 0 0 ≠ 5 ∨ s.buf.getD 1 0 ≠ 0 then (false, .any, ch)
      -- ATYP == 1 (IP V4 address)
      else if s.atyp = 1 then (true, ⟨(s.buf.drop 4).take 4, (s.buf.drop 8).take 2⟩, ch)
      else (true, .any, ch)

/-- The value of the leading decimal digits, after `acc`. -/
def decimalValue : List UInt8 → Nat → Nat
  | [], acc => acc
  | c :: s, acc => if isDigit c then decimalValue s (acc * 10 + (c.toNat - 48)) else acc

/-- `atoi(s)` as glibc computes it, `(int) strtol(s, NULL, 10)`: blanks, a sign and the digits,
the value clamped to a 64-bit `long` and then cut to 32 bits. -/
def atoi (s : List UInt8) : Int :=
  let (neg, digits) : Bool × List UInt8 := match s.dropWhile isSpace with
    -- '-'
    | 45 :: t => (true, t)
    -- '+'
    | 43 :: t => (false, t)
    | t => (false, t)
  let v : Int := decimalValue digits 0
  let l : Int := if neg then max (-v) (-2 ^ 63) else min v (2 ^ 63 - 1)
  (l + 2 ^ 31) % 2 ^ 32 - 2 ^ 31

/-- `port_from_servname(servname)`; `getservbyname` gives the `s_port` of the entry it finds. -/
def portFromServname (getservbyname : List UInt8 → Option Int) (servname : List UInt8) : Int :=
  let port := atoi servname
  if port > 0 ∧ port < 65536 then port
  else match getservbyname servname with
    | some sPort => sPort
    | none => 0

/-- `(char) x`: the low byte. -/
def intToByte (x : Int) : UInt8 := UInt8.ofNat (x % 256).toNat

/-- The CONNECT request of `establish_socks_proxy_passthru`, `5 + len + 2` bytes of `buf[270]`:
the host is cut to 263 bytes and its length is stored as a `char`. -/
def socksConnectRequest (host : List UInt8) (port : Int) : List UInt8 :=
  let len := if 5 + host.length + 2 > 270 then 270 - 5 - 2 else host.length
  -- VER = 5, CMD = 1 (CONNECT), RSV, ATYP = 3 (DOMAINNAME)
  [5, 1, 0, 3, UInt8.ofNat len] ++ host.take len ++ [intToByte (port >>> 8), intToByte port]

/-- `establish_socks_proxy_passthru(p, sd, host, servname, ...)`: `false` when it registers the
SIGUSR1 "socks-error". -/
def establishSocksProxyPassthru (authfile : List UInt8) (creds : Option (List UInt8 × List UInt8))
    (getservbyname : List UInt8 → Option Int) (host servname : List UInt8) (ch : SocksChannel) :
    Bool × SocksChannel :=
  match socksHandshake authfile creds ch with
  | (false, ch) => (false, ch)
  | (true, ch) =>
      let port := portFromServname getservbyname servname
      -- "establish_socks_proxy_passthrough: Cannot convert %s to port number"
      if port = 0 then (false, ch)
      else
        let ch := ch.send (socksConnectRequest host port)
        -- receive reply from Socks proxy and discard
        match recvSocksReply ch with
        | (false, _, ch) => (false, ch)
        | (true, _, ch) => (true, ch)

/-- The UDP ASSOCIATE request: VER = 5, CMD = 3, RSV = 0, ATYP = 1, BND.ADDR = 0, BND.PORT = 0. -/
def socksUdpAssociateRequest : List UInt8 := [5, 3, 0, 1, 0, 0, 0, 0, 0, 0]

/-- `establish_socks_proxy_udpassoc(p, ctrl_sd, udp_sd, relay_addr, ...)`: `false` when it
registers the SIGUSR1 "socks-error", and the relay address it leaves. -/
def establishSocksProxyUdpassoc (authfile : List UInt8) (creds : Option (List UInt8 × List UInt8))
    (relay : SocksRelay) (ch : SocksChannel) : Bool × SocksRelay × SocksChannel :=
  match socksHandshake authfile creds ch with
  | (false, ch) => (false, relay, ch)
  | (true, ch) =>
      let ch := ch.send socksUdpAssociateRequest
      -- CLEAR(*relay_addr), then the reply fills it
      match recvSocksReply ch with
      | (ok, relay, ch) => (ok, relay, ch)

end OpenVpn
