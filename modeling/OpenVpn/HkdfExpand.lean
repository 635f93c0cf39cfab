import OpenVpn.Buffer
import OpenVpn.BigEndian

/-! The key derivation of `crypto_epoch.c`: `ovpn_hkdf_expand`, the HKDF-Expand loop of RFC 5869
over HMAC-SHA256, and `ovpn_expand_label`, which builds the `HkdfLabel` info string in front of
it, with the two derivations the epoch keys use. HMAC-SHA256 is a parameter, a function of the key
and the message to 32 bytes. The loop has no bound of its own; a run is given a number of rounds,
and a `memcpy` outside the caller's `out` array is a fault. -/

namespace OpenVpn

-- `SHA256_DIGEST_LENGTH`
def sha256DigestLength : Nat := 32

/-- How a run of a loop ends within a given number of rounds. -/
inductive LoopEnd (α : Type) where
  /-- The loop condition failed: the loop ended with this result. -/
  | done (a : α)
  /-- A `memcpy` outside its destination. -/
  | fault
  /-- Still looping after the rounds given. -/
  | running
  deriving DecidableEq, Repr

/-- The result of a run, changed by `f`. -/
def LoopEnd.map {α β : Type} (f : α → β) : LoopEnd α → LoopEnd β
  | .done a => .done (f a)
  | .fault => .fault
  | .running => .running

/-- The loop of `ovpn_hkdf_expand(secret, info, info_len, out, out_len)`, for at most `fuel`
rounds from the one with counter `block` and `T(block - 1)` in `t_prev`; `out` is the caller's
array. -/
def ovpnHkdfExpandLoop (hmac : List UInt8 → List UInt8 → Vector UInt8 32)
    (secret info : List UInt8) (outLen : Int) :
    Nat → UInt8 → List UInt8 → List UInt8 → LoopEnd (List UInt8)
  | 0, _, _, _ => .running
  | fuel + 1, block, tPrev, out =>
      -- the `uint8_t` counter is promoted to `int`: `(block - 1) * digest_size < out_len`
      if ((block.toNat : Int) - 1) * sha256DigestLength < outLen then
        -- calculate T(block)
        let tPrev := (hmac secret (tPrev ++ info ++ [block])).toList
        -- copy a full hmac output or remaining bytes
        let outOffset := ((block.toNat : Int) - 1) * sha256DigestLength
        let copylen := min (sha256DigestLength : Int) (outLen - outOffset)
        match memWrite out outOffset (tPrev.take copylen.toNat) with
        | some out => ovpnHkdfExpandLoop hmac secret info outLen fuel (block + 1) tPrev out
        | none => .fault
      else .done out

/-- `ovpn_hkdf_expand(secret, info, info_len, out, out_len)`: `T(0)` is empty and the counter
starts at 1. -/
def ovpnHkdfExpand (hmac : List UInt8 → List UInt8 → Vector UInt8 32) (fuel : Nat)
    (secret info out : List UInt8) (outLen : Int) : LoopEnd (List UInt8) :=
  ovpnHkdfExpandLoop hmac secret info outLen fuel 1 [] out

/-- `"ovpn "`, the label prefix. -/
def ovpnLabelPrefix : List UInt8 := [111, 118, 112, 110, 32]

/-- The `hkdf_label` buffer of `ovpn_expand_label`: `out_len` as a network-order `uint16`, the
length of prefix and label, `"ovpn "`, the label, the length of the context and the context. The
buffer is allocated at exactly this length, so every `buf_write` fits and the `ASSERT` holds. -/
def hkdfLabel (label context : List UInt8) (outLen : UInt16) : List UInt8 :=
  BigEndian.encode 2 outLen.toNat ++ [UInt8.ofNat (ovpnLabelPrefix.length + label.length)] ++
    ovpnLabelPrefix ++ label ++ [UInt8.ofNat context.length] ++
    (if context.length > 0 then context else [])

/-- `ovpn_expand_label(secret, secret_len, label, label_len, context, context_len, out, out_len)`:
whether it returned true, and the caller's `out` array after it. -/
def ovpnExpandLabel (hmac : List UInt8 → List UInt8 → Vector UInt8 32) (fuel : Nat)
    (secret label context out : List UInt8) (outLen : UInt16) : LoopEnd (Bool × List UInt8) :=
  if secret.length ≠ 32 ∨ label.length > 250 ∨ context.length > 255 ∨ label.length < 1 then
    .done (false, out)
  else
    (ovpnHkdfExpand hmac fuel secret (hkdfLabel label context outLen) out outLen.toNat).map
      fun out => (true, out)

/-- `"datakey upd"`. -/
def epochUpdateLabel : List UInt8 := [100, 97, 116, 97, 107, 101, 121, 32, 117, 112, 100]

/-- `"data_key"`. -/
def epochDataKeyLabel : List UInt8 := [100, 97, 116, 97, 95, 107, 101, 121]

/-- `"data_iv"`. -/
def epochDataIvLabel : List UInt8 := [100, 97, 116, 97, 95, 105, 118]

/-- The key material `epoch_key_iterate` gives `E_{n+1}`: the zeroed 32-byte `epoch_key` of the
new key, after `ovpn_expand_label(E_n, "datakey upd", "", 32)`. -/
def epochKeyIterateKey (hmac : List UInt8 → List UInt8 → Vector UInt8 32) (fuel : Nat)
    (epochKey : List UInt8) : LoopEnd (List UInt8) :=
  (ovpnExpandLabel hmac fuel epochKey epochUpdateLabel [] (List.replicate 32 0) 32).map Prod.snd

/-- `epoch_data_key_derive`: the arrays `key->cipher` and `key->hmac` after the two derivations,
of `cipher_size` and `hmac_size` (the IV size) bytes. -/
def epochDataKeyDerive (hmac : List UInt8 → List UInt8 → Vector UInt8 32) (fuel : Nat)
    (epochKey cipher hmacKey : List UInt8) (cipherSize hmacSize : UInt16) :
    LoopEnd (List UInt8 × List UInt8) :=
  match ovpnExpandLabel hmac fuel epochKey epochDataKeyLabel [] cipher cipherSize with
  | .done (_, cipher) =>
      (ovpnExpandLabel hmac fuel epochKey epochDataIvLabel [] hmacKey hmacSize).map
        fun r => (cipher, r.2)
  | .fault => .fault
  | .running => .running

end OpenVpn
