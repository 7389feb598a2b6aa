import Mathlib
import Btp.P2p.Rlpx.Frame

/-!
# The RLPx encryption handshake

`encHandshake` of `p2p/rlpx.go`: the initiator's `makeAuthMsg`,
`handleAuthResp` and `initiatorEncHandshake`, the recipient's
`handleAuthMsg`, `makeAuthResp` and `receiverEncHandshake`, the two
encodings of the handshake messages (`sealPlain`/`decodePlain` before
EIP-8, `sealEIP8`), `readHandshakeMsg`, `importPublicKey`, `xor`, and
`encHandshake.secrets`.

Keys are byte strings: a private key as the scalar, a public key as the 64
bytes `exportPubkey` gives. ECDH, signing and recovery, the unmarshalling of
a public key, the body of an ECIES ciphertext and Keccak-256 are opaque
(`Crypto`), with the laws of `Crypto.Lawful`. Of `ecies.Encrypt` and
`Decrypt` the model keeps what the handshake depends on: the ciphertext
starts with the marshalled ephemeral key (tag `4`, then its 64 bytes), and
`Decrypt` refuses a ciphertext whose first byte is not a point tag or that is
too short, before it opens the rest. RLP of the two messages is a parameter
with its round trip and the lengths of the encodings (`HandshakeRLP`). What
`crypto/rand` and `math/rand` return is an input (`Coins`). A MAC hash state
is the bytes written to it, as in the frame layer.
-/

namespace Btp.Rlpx

def sskLen : Nat := 16
def sigLen : Nat := 65
def pubLen : Nat := 64
def shaLen : Nat := 32
def authMsgLen : Nat := sigLen + shaLen + pubLen + shaLen + 1
def authRespLen : Nat := pubLen + shaLen + 1
def eciesOverhead : Nat := 65 + 16 + 32
def encAuthMsgLen : Nat := authMsgLen + eciesOverhead
def encAuthRespLen : Nat := authRespLen + eciesOverhead

/-- `copy(dst[:], src)` into a fresh array of `n` zero bytes. -/
def copyInto (n : Nat) (src : List UInt8) : Vector UInt8 n :=
  ⟨(src.take n ++ List.replicate (n - src.length) 0).toArray, by simp; omega⟩

/-- `xor`: Go reads `other` at every index of `one`; at each call here both
are 32 bytes. -/
def xor (one other : List UInt8) : List UInt8 :=
  (List.range one.length).map fun i => one.getD i 0 ^^^ other.getD i 0

/-- `binary.BigEndian.PutUint16`. -/
def putUint16 (v : Nat) : List UInt8 := [(v >>> 8).toUInt8, v.toUInt8]

/-- `binary.BigEndian.Uint16`. -/
def readUint16 (b : List UInt8) : Nat := (b.getD 1 0).toNat ||| (b.getD 0 0).toNat <<< 8

/-- The curve operations and hashes, opaque. -/
structure Crypto where
  /-- `exportPubkey` of the public key of a private key. -/
  pub : List UInt8 → List UInt8
  /-- `GenerateShared(remote, sskLen, sskLen)` of a private key. -/
  generateShared : List UInt8 → List UInt8 → Option (List UInt8)
  /-- `crypto.Sign(hash, prv)`. -/
  sign : List UInt8 → List UInt8 → Option (List UInt8)
  /-- `crypto.Ecrecover(hash, sig)`: a 65-byte key. -/
  ecrecover : List UInt8 → List UInt8 → Option (List UInt8)
  /-- `crypto.UnmarshalPubkey` of a 65-byte key. -/
  unmarshalPubkey : List UInt8 → Option (List UInt8)
  /-- The IV, ciphertext and MAC `ecies.Encrypt` writes after the ephemeral
  key, from the ephemeral private key, the remote key, the message and the
  shared MAC data. -/
  eciesBody : List UInt8 → List UInt8 → List UInt8 → List UInt8 → List UInt8
  /-- What `Decrypt` does once the format is checked: from the private key,
  the marshalled ephemeral key, the rest and the shared MAC data. -/
  eciesOpen : List UInt8 → List UInt8 → List UInt8 → List UInt8 → Option (List UInt8)
  keccak : List UInt8 → List UInt8

/-- ECDH agreement, signature recovery, the ECIES round trip and the lengths
of keys, signatures, ciphertexts and hashes. -/
structure Crypto.Lawful (X : Crypto) : Prop where
  pub_length : ∀ k, (X.pub k).length = 64
  shared : ∀ a b, ∃ z, X.generateShared a (X.pub b) = some z ∧
    X.generateShared b (X.pub a) = some z ∧ z.length = 32
  sign : ∀ h k, h.length = 32 →
    ∃ sig, X.sign h k = some sig ∧ sig.length = 65 ∧ X.ecrecover h sig = some (4 :: X.pub k)
  unmarshal : ∀ k, X.unmarshalPubkey (4 :: X.pub k) = some (X.pub k)
  body_length : ∀ r p m s2, (X.eciesBody r p m s2).length = m.length + 48
  open_body : ∀ k r m s2, X.eciesOpen k (4 :: X.pub r) (X.eciesBody r (X.pub k) m s2) s2 = some m
  keccak_length : ∀ d, (X.keccak d).length = 32

section
variable (X : Crypto)

/-- `ecies.Encrypt(rand, remote, m, nil, s2)` with the ephemeral key `r`: the
marshalled ephemeral key, then the body; an empty message, whose ciphertext is
no longer than the IV, gives an empty result and no error. -/
def Encrypt (r remote m s2 : List UInt8) : List UInt8 :=
  if m.isEmpty then [] else 4 :: X.pub r ++ X.eciesBody r remote m s2

/-- `PrivateKey.Decrypt(c, nil, s2)`: the tag of the ephemeral key is checked,
then the length, then the point (only an uncompressed one unmarshals). -/
def Decrypt (prv c s2 : List UInt8) : Option (List UInt8) :=
  match c with
  | [] => none
  | tag :: _ =>
    if tag ≠ 2 ∧ tag ≠ 3 ∧ tag ≠ 4 then none
    else if c.length < 65 + 32 + 1 then none
    else if tag ≠ 4 then none
    else X.eciesOpen prv (c.take 65) (c.drop 65) s2

/-- `importPublicKey`. -/
def importPublicKey (pubKey : List UInt8) : Option (List UInt8) :=
  if pubKey.length = 64 then X.unmarshalPubkey (4 :: pubKey)
  else if pubKey.length = 65 then X.unmarshalPubkey pubKey
  else none

end

/-- `authMsgV4`; the fields of `Rest` are not read and are not modelled. -/
structure authMsgV4 where
  gotPlain : Bool
  Signature : Vector UInt8 65
  InitiatorPubkey : Vector UInt8 64
  Nonce : Vector UInt8 32
  Version : Nat

/-- `authRespV4`. -/
structure authRespV4 where
  RandomPubkey : Vector UInt8 64
  Nonce : Vector UInt8 32
  Version : Nat

/-- RLP of the two messages, as `rlp.Encode` writes them and as a stream
decodes the first value of a buffer. -/
structure HandshakeRLP where
  encodeAuth : authMsgV4 → List UInt8
  decodeAuth : List UInt8 → Option authMsgV4
  encodeResp : authRespV4 → List UInt8
  decodeResp : List UInt8 → Option authRespV4

/-- The round trips of version-4 messages, past any padding, and the lengths
of their encodings: a list of a 65-, a 64- and a 32-byte string and a small
integer is 169 bytes; of a 64- and a 32-byte string and a small integer, 102. -/
structure HandshakeRLP.Lawful (R : HandshakeRLP) : Prop where
  decodeAuth_encode : ∀ m pad, m.Version = 4 →
    R.decodeAuth (R.encodeAuth m ++ pad) = some { m with gotPlain := false }
  encodeAuth_length : ∀ m, m.Version = 4 → (R.encodeAuth m).length = 169
  decodeResp_encode : ∀ m pad, m.Version = 4 → R.decodeResp (R.encodeResp m ++ pad) = some m
  encodeResp_length : ∀ m, m.Version = 4 → (R.encodeResp m).length = 102

/-- What the random sources give one side: `rand.Read` for its nonce,
`ecies.GenerateKey` for its ephemeral key, `mrand.Intn` for the EIP-8
padding, and the ephemeral key of `ecies.Encrypt`. -/
structure Coins where
  nonce : Vector UInt8 32
  ephemeral : List UInt8
  pad : Fin 200
  ecies : List UInt8

/-- `encHandshake`; a `nil` key is `none`. -/
structure encHandshake where
  initiator : Bool
  remote : List UInt8
  initNonce : List UInt8
  respNonce : List UInt8
  randomPrivKey : List UInt8
  remoteRandomPub : Option (List UInt8)

/-- How the initiator seals its auth message. -/
inductive AuthEncoding
  | plain
  | eip8
  deriving DecidableEq

section
variable (X : Crypto) (R : HandshakeRLP)

namespace encHandshake

/-- `encHandshake.secrets`. -/
def secrets (h : encHandshake) (auth authResp : List UInt8) : Option Rlpx.secrets := do
  let remoteRandomPub ← h.remoteRandomPub
  let ecdheSecret ← X.generateShared h.randomPrivKey remoteRandomPub
  let sharedSecret := X.keccak (ecdheSecret ++ X.keccak (h.respNonce ++ h.initNonce))
  let aesSecret := X.keccak (ecdheSecret ++ sharedSecret)
  let MAC := X.keccak (ecdheSecret ++ aesSecret)
  let mac1 := xor MAC h.respNonce ++ auth
  let mac2 := xor MAC h.initNonce ++ authResp
  pure { Remote := h.remote, AES := aesSecret, MAC,
         EgressMAC := if h.initiator then mac1 else mac2,
         IngressMAC := if h.initiator then mac2 else mac1 }

/-- `encHandshake.makeAuthMsg`. -/
def makeAuthMsg (h : encHandshake) (prv : List UInt8) (coins : Coins) :
    Option (authMsgV4 × encHandshake) := do
  let h := { h with initNonce := coins.nonce.toList, randomPrivKey := coins.ephemeral }
  let token ← X.generateShared prv h.remote
  let signed := xor token h.initNonce
  let signature ← X.sign signed h.randomPrivKey
  pure ({ gotPlain := false, Signature := copyInto 65 signature,
          InitiatorPubkey := copyInto 64 (X.pub prv), Nonce := copyInto 32 h.initNonce,
          Version := 4 }, h)

/-- `encHandshake.handleAuthResp`. -/
def handleAuthResp (h : encHandshake) (msg : authRespV4) : Option encHandshake := do
  let remoteRandomPub ← importPublicKey X msg.RandomPubkey.toList
  pure { h with respNonce := msg.Nonce.toList, remoteRandomPub }

/-- `encHandshake.handleAuthMsg`, with the ephemeral key the recipient
generates; the error of importing the recovered key is dropped, as in Go. -/
def handleAuthMsg (h : encHandshake) (msg : authMsgV4) (prv ephemeral : List UInt8) :
    Option encHandshake := do
  let rpub ← importPublicKey X msg.InitiatorPubkey.toList
  let h := { h with initNonce := msg.Nonce.toList, remote := rpub, randomPrivKey := ephemeral }
  let token ← X.generateShared prv h.remote
  let signedMsg := xor token h.initNonce
  let remoteRandomPub ← X.ecrecover signedMsg msg.Signature.toList
  pure { h with remoteRandomPub := importPublicKey X remoteRandomPub }

/-- `encHandshake.makeAuthResp`. -/
def makeAuthResp (h : encHandshake) (coins : Coins) : authRespV4 × encHandshake :=
  let h := { h with respNonce := coins.nonce.toList }
  ({ RandomPubkey := copyInto 64 (X.pub h.randomPrivKey), Nonce := copyInto 32 h.respNonce,
     Version := 4 }, h)

end encHandshake

/-- `authMsgV4.sealPlain`: signature, hash of the ephemeral key, static key,
nonce and a zero token flag, encrypted to the remote key. -/
def authMsgV4.sealPlain (msg : authMsgV4) (h : encHandshake) (coins : Coins) : List UInt8 :=
  let buf := msg.Signature.toList ++ X.keccak (X.pub h.randomPrivKey) ++
    msg.InitiatorPubkey.toList ++ msg.Nonce.toList ++ [0]
  Encrypt X coins.ecies h.remote buf []

/-- `authMsgV4.decodePlain`; Go slices past the copied signature and the
skipped hash, which panics on an input shorter than both. -/
def authMsgV4.decodePlain (input : List UInt8) : Option authMsgV4 :=
  let n := min 65 input.length + shaLen
  if input.length < n then none
  else
    let n' := n + min 64 (input.length - n)
    some { gotPlain := true, Signature := copyInto 65 input,
           InitiatorPubkey := copyInto 64 (input.drop n), Nonce := copyInto 32 (input.drop n'),
           Version := 4 }

/-- `authRespV4.sealPlain`. -/
def authRespV4.sealPlain (msg : authRespV4) (h : encHandshake) (coins : Coins) : List UInt8 :=
  Encrypt X coins.ecies h.remote (msg.RandomPubkey.toList ++ msg.Nonce.toList ++ [0]) []

/-- `authRespV4.decodePlain`. -/
def authRespV4.decodePlain (input : List UInt8) : Option authRespV4 :=
  let n := min 64 input.length
  some { RandomPubkey := copyInto 64 input, Nonce := copyInto 32 (input.drop n), Version := 4 }

/-- `sealEIP8` of the RLP `encoded`: padded with `100 + pad` zero bytes,
prefixed with its encrypted size, which is also the shared MAC data. -/
def sealEIP8 (encoded : List UInt8) (h : encHandshake) (coins : Coins) : List UInt8 :=
  let buf := encoded ++ List.replicate (coins.pad.val + 100) 0
  let pfx := putUint16 ((buf.length + eciesOverhead) % 2 ^ 16)
  pfx ++ Encrypt X coins.ecies h.remote buf pfx

/-- `readHandshakeMsg`: the packet read and the message, decoded from the
plain format if the first `plainSize` bytes decrypt, else from EIP-8. -/
def readHandshakeMsg {M : Type} (decodePlain : List UInt8 → Option M)
    (decodeRLP : List UInt8 → Option M) (plainSize : Nat) (prv wire : List UInt8) :
    Option (List UInt8 × M) := do
  if wire.length < plainSize then none
  let buf := wire.take plainSize
  match Decrypt X prv buf [] with
  | some dec =>
    let msg ← decodePlain dec
    pure (buf, msg)
  | none =>
    let pfx := buf.take 2
    let size := readUint16 pfx
    if size < plainSize % 2 ^ 16 then none
    let total := plainSize + (size - plainSize % 2 ^ 16 + 2) % 2 ^ 16
    if wire.length < total then none
    let buf := wire.take total
    let dec ← Decrypt X prv (buf.drop 2) pfx
    let msg ← decodeRLP dec
    pure (buf, msg)

/-- The auth packet in the initiator's encoding: Go's initiator seals with
EIP-8, a peer from before EIP-8 seals plain. -/
def sealAuth (enc : AuthEncoding) (msg : authMsgV4) (h : encHandshake) (coins : Coins) :
    List UInt8 :=
  match enc with
  | .plain => msg.sealPlain X h coins
  | .eip8 => sealEIP8 X (R.encodeAuth msg) h coins

/-- The first half of `initiatorEncHandshake`: the state and the auth packet
it writes. -/
def initiatorStart (enc : AuthEncoding) (prv remote : List UInt8) (coins : Coins) :
    Option (encHandshake × List UInt8) := do
  let h : encHandshake := { initiator := true, remote, initNonce := [], respNonce := [],
                            randomPrivKey := [], remoteRandomPub := none }
  let (authMsg, h) ← h.makeAuthMsg X prv coins
  pure (h, sealAuth X R enc authMsg h coins)

/-- The second half of `initiatorEncHandshake`: read the reply on `wire`. -/
def initiatorFinish (h : encHandshake) (prv authPacket wire : List UInt8) :
    Option Rlpx.secrets := do
  let (authRespPacket, authRespMsg) ←
    readHandshakeMsg X authRespV4.decodePlain R.decodeResp encAuthRespLen prv wire
  let h ← h.handleAuthResp X authRespMsg
  h.secrets X authPacket authRespPacket

/-- `receiverEncHandshake` on `wire`: the secrets and the reply it writes. -/
def receiverEncHandshake (prv : List UInt8) (coins : Coins) (wire : List UInt8) :
    Option (Rlpx.secrets × List UInt8) := do
  let (authPacket, authMsg) ←
    readHandshakeMsg X authMsgV4.decodePlain R.decodeAuth encAuthMsgLen prv wire
  let h : encHandshake := { initiator := false, remote := [], initNonce := [], respNonce := [],
                            randomPrivKey := [], remoteRandomPub := none }
  let h ← h.handleAuthMsg X authMsg prv coins.ephemeral
  let (authRespMsg, h) := h.makeAuthResp X coins
  let authRespPacket :=
    if authMsg.gotPlain then authRespMsg.sealPlain X h coins
    else sealEIP8 X (R.encodeResp authRespMsg) h coins
  let s ← h.secrets X authPacket authRespPacket
  pure (s, authRespPacket)

/-- The two handshakes run against each other: the initiator writes its auth
packet, the recipient reads it and writes its reply, the initiator reads
that. -/
def handshake (enc : AuthEncoding) (prvA prvB : List UInt8) (coinsA coinsB : Coins) :
    Option (Rlpx.secrets × Rlpx.secrets) := do
  let (h, authPacket) ← initiatorStart X R enc prvA (X.pub prvB) coinsA
  let (sB, authRespPacket) ← receiverEncHandshake X R prvB coinsB authPacket
  let sA ← initiatorFinish X R h prvA authPacket authRespPacket
  pure (sA, sB)

end

/-! ## Buffers -/

@[simp] theorem toList_copyInto (n : Nat) (src : List UInt8) :
    (copyInto n src).toList = src.take n ++ List.replicate (n - src.length) 0 := by
  simp [copyInto]

/-- Copying a whole array, with anything after it, gives the array back. -/
@[simp] theorem copyInto_toList_append {n : Nat} (v : Vector UInt8 n) (rest : List UInt8) :
    copyInto n (v.toList ++ rest) = v := by
  apply Vector.toList_inj.mp
  simp [List.take_left']

@[simp] theorem copyInto_toList {n : Nat} (v : Vector UInt8 n) : copyInto n v.toList = v := by
  simpa using copyInto_toList_append v []

theorem toList_copyInto_of_length {n : Nat} {src : List UInt8} (h : src.length = n) :
    (copyInto n src).toList = src := by
  simp [h, List.take_of_length_le (Nat.le_of_eq h)]

@[simp] theorem length_xor (one other : List UInt8) : (xor one other).length = one.length := by
  simp [xor]

theorem readUint16_putUint16 {v : Nat} (hv : v < 2 ^ 16) : readUint16 (putUint16 v) = v := by
  have h₁ : ((v >>> 8).toUInt8.toNat) = v / 2 ^ 8 % 256 := by
    simp [Nat.shiftRight_eq_div_pow]
  have h₀ : v.toUInt8.toNat = v % 256 := by simp
  simp only [readUint16, putUint16, List.getD_cons_succ, List.getD_cons_zero, h₀, h₁]
  rw [Nat.shiftLeft_eq, Nat.or_comm, Nat.mul_comm, ← Nat.two_pow_add_eq_or_of_lt (by omega)]
  omega

section
variable {X : Crypto}

/-! ## ECIES -/

/-- A ciphertext whose first byte is not the tag of an uncompressed point
does not decrypt. -/
theorem Decrypt_of_ne {t : UInt8} (ht : t ≠ 4) (prv c s2 : List UInt8) :
    Decrypt X prv (t :: c) s2 = none := by
  simp [Decrypt, ht]

/-- The size prefix of an EIP-8 packet under 1024 starts with a byte below
every point tag, so the packet never decrypts as a plain one. -/
theorem Decrypt_putUint16 {v : Nat} (hv : v < 1024) (prv rest s2 : List UInt8) :
    Decrypt X prv (putUint16 v ++ rest) s2 = none := by
  apply Decrypt_of_ne
  intro h
  have h4 : ((v >>> 8).toUInt8).toNat = 4 := by rw [h]; rfl
  simp [Nat.shiftRight_eq_div_pow] at h4
  omega

/-! ## Reading a handshake message -/

/-- A packet of exactly `plainSize` bytes that decrypts is read in the plain
format. -/
theorem readHandshakeMsg_of_Decrypt {M : Type} (decodePlain : List UInt8 → Option M)
    (decodeRLP : List UInt8 → Option M) {plainSize : Nat} {prv wire dec : List UInt8}
    (hlen : wire.length = plainSize) (hd : Decrypt X prv wire [] = some dec) :
    readHandshakeMsg X decodePlain decodeRLP plainSize prv wire =
      (do let msg ← decodePlain dec; pure (wire, msg)) := by
  subst hlen
  simp only [readHandshakeMsg, lt_self_iff_false, if_false, List.take_length, hd]

/-- An EIP-8 packet, a size under 1024 and a ciphertext of that size, is read
whole, with its size prefix as the MAC data of the decryption. -/
theorem readHandshakeMsg_eip8 {M : Type} (decodePlain : List UInt8 → Option M)
    (decodeRLP : List UInt8 → Option M) {plainSize : Nat} {prv c : List UInt8}
    (hmin : 2 ≤ plainSize) (hle : plainSize ≤ c.length) (hc : c.length < 1024) :
    readHandshakeMsg X decodePlain decodeRLP plainSize prv (putUint16 c.length ++ c) =
      (do let dec ← Decrypt X prv c (putUint16 c.length)
          let msg ← decodeRLP dec
          pure (putUint16 c.length ++ c, msg)) := by
  have hp : (putUint16 c.length).length = 2 := rfl
  -- the first read: the prefix, then the start of the ciphertext
  have hfirst : (putUint16 c.length ++ c).take plainSize =
      putUint16 c.length ++ c.take (plainSize - 2) := by
    rw [List.take_append, List.take_of_length_le (by omega), hp]
  have hpfx : (putUint16 c.length ++ c.take (plainSize - 2)).take 2 = putUint16 c.length :=
    List.take_left' hp
  have hsize : readUint16 (putUint16 c.length) = c.length := readUint16_putUint16 (by omega)
  have hmod : plainSize % 2 ^ 16 = plainSize := Nat.mod_eq_of_lt (by omega)
  -- the second read ends where the ciphertext does
  have htotal : plainSize + (c.length - plainSize + 2) % 2 ^ 16 = c.length + 2 := by
    rw [Nat.mod_eq_of_lt (by omega)]
    omega
  have hwlen : (putUint16 c.length ++ c).length = c.length + 2 := by
    rw [List.length_append, hp, Nat.add_comm]
  have hall : (putUint16 c.length ++ c).take (c.length + 2) = putUint16 c.length ++ c :=
    List.take_of_length_le (Nat.le_of_eq hwlen)
  have hrest : (putUint16 c.length ++ c).drop 2 = c := List.drop_left' hp
  simp only [readHandshakeMsg, hwlen, hfirst, Decrypt_putUint16 hc, hpfx, hsize, hmod, htotal, hall,
    hrest, lt_self_iff_false, if_false, Nat.not_lt.mpr hle, Nat.not_lt.mpr (by omega : plainSize ≤ c.length + 2)]

variable (hX : X.Lawful)
include hX

theorem length_Encrypt {m : List UInt8} (hm : m ≠ []) (r remote s2 : List UInt8) :
    (Encrypt X r remote m s2).length = m.length + eciesOverhead := by
  simp [Encrypt, hm, hX.pub_length, hX.body_length, eciesOverhead]
  omega

/-- The recipient of a ciphertext decrypts it with the same shared MAC data. -/
theorem Decrypt_Encrypt {m : List UInt8} (hm : m ≠ []) (prv r s2 : List UInt8) :
    Decrypt X prv (Encrypt X r (X.pub prv) m s2) s2 = some m := by
  have hpub := hX.pub_length r
  have hbody := hX.body_length r (X.pub prv) m s2
  have htake : (X.pub r ++ X.eciesBody r (X.pub prv) m s2).take 64 = X.pub r :=
    List.take_left' hpub
  have hdrop : (X.pub r ++ X.eciesBody r (X.pub prv) m s2).drop 64 = X.eciesBody r (X.pub prv) m s2 :=
    List.drop_left' hpub
  simp only [Encrypt, List.isEmpty_iff, hm, if_false, Decrypt, List.length_cons, List.length_append,
    hpub, hbody]
  simp [htake, hdrop, hX.open_body]
  omega

theorem importPublicKey_pub (k : List UInt8) : importPublicKey X (X.pub k) = some (X.pub k) := by
  simp [importPublicKey, hX.pub_length, hX.unmarshal]

/-- A recovered key, with its tag, imports as the key. -/
theorem importPublicKey_marshal (k : List UInt8) :
    importPublicKey X (4 :: X.pub k) = some (X.pub k) := by
  simp [importPublicKey, hX.pub_length, hX.unmarshal]

/-- What `sealEIP8` writes, whatever its padding, is read back whole by the
key it was sealed to, when the size stays under 1024. -/
theorem readHandshakeMsg_sealEIP8 {M : Type} (decodePlain : List UInt8 → Option M)
    (decodeRLP : List UInt8 → Option M) {plainSize : Nat} {prv encoded : List UInt8}
    {h : encHandshake} (coins : Coins) (hr : h.remote = X.pub prv) (hmin : 2 ≤ plainSize)
    (hle : plainSize ≤ encoded.length + 100 + eciesOverhead)
    (hsmall : encoded.length + 299 + eciesOverhead < 1024) :
    readHandshakeMsg X decodePlain decodeRLP plainSize prv (sealEIP8 X encoded h coins) =
      (do let msg ← decodeRLP (encoded ++ List.replicate (coins.pad.val + 100) 0)
          pure (sealEIP8 X encoded h coins, msg)) := by
  set buf := encoded ++ List.replicate (coins.pad.val + 100) 0 with hbuf
  have hpad := coins.pad.isLt
  have hbuflen : buf.length = encoded.length + coins.pad.val + 100 := by
    simp only [buf, List.length_append, List.length_replicate]
    omega
  have hne : buf ≠ [] := List.ne_nil_of_length_pos (by omega)
  set pfx := putUint16 ((buf.length + eciesOverhead) % 2 ^ 16) with hpfx
  set c := Encrypt X coins.ecies h.remote buf pfx with hc
  have hclen : c.length = (buf.length + eciesOverhead) % 2 ^ 16 := by
    rw [hc, length_Encrypt hX hne, Nat.mod_eq_of_lt (by omega)]
  have hseal : sealEIP8 X encoded h coins = putUint16 c.length ++ c := by
    rw [hclen]
    rfl
  have hdec : Decrypt X prv c (putUint16 c.length) = some buf := by
    rw [hclen, hc, hr]
    exact Decrypt_Encrypt hX hne prv coins.ecies pfx
  have hsize : c.length < 1024 := by
    rw [hclen, Nat.mod_eq_of_lt (by omega)]
    omega
  rw [hseal, readHandshakeMsg_eip8 decodePlain decodeRLP hmin (by omega) hsize, hdec]
  rfl

end

/-- The plain auth body decodes to the fields it was written from. -/
theorem authMsgV4.decodePlain_eq (sig : Vector UInt8 65) (ip : Vector UInt8 64)
    (nonce : Vector UInt8 32) {e : List UInt8} (he : e.length = shaLen) :
    authMsgV4.decodePlain (sig.toList ++ e ++ ip.toList ++ nonce.toList ++ [0]) =
      some { gotPlain := true, Signature := sig, InitiatorPubkey := ip, Nonce := nonce, Version := 4 } := by
  have hlen : (sig.toList ++ e ++ ip.toList ++ nonce.toList ++ [0]).length = 194 := by
    simp [he, shaLen]
  have h97 : (sig.toList ++ e ++ ip.toList ++ nonce.toList ++ [0]).drop 97 =
      ip.toList ++ (nonce.toList ++ [0]) := by
    simp only [List.append_assoc]
    rw [← List.append_assoc sig.toList e, List.drop_left' (by simp [he, shaLen])]
  have h161 : (sig.toList ++ e ++ ip.toList ++ nonce.toList ++ [0]).drop 161 = nonce.toList ++ [0] := by
    simp only [List.append_assoc]
    rw [← List.append_assoc e, ← List.append_assoc sig.toList, List.drop_left' (by simp [he, shaLen])]
  have hn : min 65 194 + shaLen = 97 := rfl
  have hn' : 97 + min 64 (194 - 97) = 161 := rfl
  simp only [authMsgV4.decodePlain, hlen, hn, hn', h97, h161]
  simp [List.append_assoc]

/-- The plain reply body decodes to the fields it was written from. -/
theorem authRespV4.decodePlain_eq (pub : Vector UInt8 64) (nonce : Vector UInt8 32) :
    authRespV4.decodePlain (pub.toList ++ nonce.toList ++ [0]) =
      some { RandomPubkey := pub, Nonce := nonce, Version := 4 } := by
  simp [authRespV4.decodePlain, List.append_assoc]

/-! ## The two ends -/

/-- Secrets of the two ends of one connection: the same keys, and each end's
egress MAC state the other's ingress one. -/
structure secrets.Mirrored (a b : secrets) : Prop where
  AES : a.AES = b.AES
  MAC : a.MAC = b.MAC
  egress : a.EgressMAC = b.IngressMAC
  ingress : a.IngressMAC = b.EgressMAC

section
variable {X : Crypto}

namespace encHandshake

theorem makeAuthMsg_eq {h : encHandshake} {prv token sig : List UInt8} {coins : Coins}
    (htok : X.generateShared prv h.remote = some token)
    (hsig : X.sign (xor token coins.nonce.toList) coins.ephemeral = some sig) :
    h.makeAuthMsg X prv coins =
      some ({ gotPlain := false, Signature := copyInto 65 sig, InitiatorPubkey := copyInto 64 (X.pub prv),
              Nonce := coins.nonce, Version := 4 },
            { h with initNonce := coins.nonce.toList, randomPrivKey := coins.ephemeral }) := by
  simp [makeAuthMsg, htok, hsig]

theorem handleAuthMsg_eq {h : encHandshake} {msg : authMsgV4} {prv eph rpub token rrand : List UInt8}
    (hpub : importPublicKey X msg.InitiatorPubkey.toList = some rpub)
    (htok : X.generateShared prv rpub = some token)
    (hrec : X.ecrecover (xor token msg.Nonce.toList) msg.Signature.toList = some rrand) :
    h.handleAuthMsg X msg prv eph =
      some { h with initNonce := msg.Nonce.toList, remote := rpub, randomPrivKey := eph,
                    remoteRandomPub := importPublicKey X rrand } := by
  simp [handleAuthMsg, hpub, htok, hrec]

theorem handleAuthResp_eq {h : encHandshake} {msg : authRespV4} {p : List UInt8}
    (hpub : importPublicKey X msg.RandomPubkey.toList = some p) :
    h.handleAuthResp X msg = some { h with respNonce := msg.Nonce.toList, remoteRandomPub := some p } := by
  simp [handleAuthResp, hpub]

/-- Two ends that reach the same ephemeral secret and hold the same two
nonces, one of them the initiator, derive mirrored secrets from the same two
packets. -/
theorem secrets_mirrored (hA hB : encHandshake) {pA pB z : List UInt8} (auth authResp : List UInt8)
    (hpA : hA.remoteRandomPub = some pA) (hpB : hB.remoteRandomPub = some pB)
    (hzA : X.generateShared hA.randomPrivKey pA = some z)
    (hzB : X.generateShared hB.randomPrivKey pB = some z)
    (hi : hA.initiator = true) (hr : hB.initiator = false)
    (hn : hA.initNonce = hB.initNonce) (hm : hA.respNonce = hB.respNonce) :
    ∃ sA sB, hA.secrets X auth authResp = some sA ∧ hB.secrets X auth authResp = some sB ∧
      sA.Mirrored sB ∧ sA.Remote = hA.remote ∧ sB.Remote = hB.remote := by
  simp [secrets, hpA, hpB, hzA, hzB, hi, hr, hn, hm]
  -- both ends hash the same inputs; the initiator's first MAC is the recipient's second
  exact ⟨rfl, rfl, rfl, rfl⟩

end encHandshake

end

section
variable {X : Crypto} {R : HandshakeRLP} (hX : X.Lawful) (hR : R.Lawful)
include hX hR

/-- The recipient reads the auth packet in either encoding, and learns which
one it was. -/
theorem readHandshakeMsg_sealAuth (enc : AuthEncoding) {msg : authMsgV4} (hv : msg.Version = 4)
    {prv : List UInt8} {h : encHandshake} (hr : h.remote = X.pub prv) (coins : Coins) :
    readHandshakeMsg X authMsgV4.decodePlain R.decodeAuth encAuthMsgLen prv (sealAuth X R enc msg h coins) =
      some (sealAuth X R enc msg h coins, { msg with gotPlain := decide (enc = .plain) }) := by
  obtain ⟨g, sig, ip, nonce, v⟩ := msg
  simp only at hv
  subst hv
  cases enc with
  | plain =>
    set body := sig.toList ++ X.keccak (X.pub h.randomPrivKey) ++ ip.toList ++ nonce.toList ++ [0]
    have hlen : body.length = authMsgLen := by
      simp [body, hX.keccak_length, authMsgLen, sigLen, shaLen, pubLen]
    have hne : body ≠ [] := List.ne_nil_of_length_pos (by rw [hlen]; decide)
    have hpacket : sealAuth X R .plain ⟨g, sig, ip, nonce, 4⟩ h coins =
        Encrypt X coins.ecies (X.pub prv) body [] := by
      rw [← hr]
      rfl
    have hsize : (Encrypt X coins.ecies (X.pub prv) body []).length = encAuthMsgLen := by
      rw [length_Encrypt hX hne, hlen]
      rfl
    rw [hpacket, readHandshakeMsg_of_Decrypt _ _ hsize (Decrypt_Encrypt hX hne prv coins.ecies []),
      authMsgV4.decodePlain_eq sig ip nonce (hX.keccak_length _)]
    rfl
  | eip8 =>
    have hlen := hR.encodeAuth_length ⟨g, sig, ip, nonce, 4⟩ rfl
    simp only [sealAuth]
    rw [readHandshakeMsg_sealEIP8 hX _ _ coins hr (by decide) (by rw [hlen]; decide)
      (by rw [hlen]; decide), hR.decodeAuth_encode _ _ rfl]
    rfl

/-- The initiator reads the reply in either encoding. -/
theorem readHandshakeMsg_reply (plain : Prop) [Decidable plain] {msg : authRespV4}
    (hv : msg.Version = 4) {prv : List UInt8} {h : encHandshake} (hr : h.remote = X.pub prv)
    (coins : Coins) :
    let packet := if plain then msg.sealPlain X h coins else sealEIP8 X (R.encodeResp msg) h coins
    readHandshakeMsg X authRespV4.decodePlain R.decodeResp encAuthRespLen prv packet =
      some (packet, msg) := by
  intro packet
  obtain ⟨pub, nonce, v⟩ := msg
  simp only at hv
  subst hv
  by_cases hp : plain
  case pos =>
    set body := pub.toList ++ nonce.toList ++ [0]
    have hlen : body.length = authRespLen := by simp [body, authRespLen, shaLen, pubLen]
    have hne : body ≠ [] := List.ne_nil_of_length_pos (by rw [hlen]; decide)
    have hpacket : packet = Encrypt X coins.ecies (X.pub prv) body [] := by
      rw [← hr]
      exact if_pos hp
    have hsize : (Encrypt X coins.ecies (X.pub prv) body []).length = encAuthRespLen := by
      rw [length_Encrypt hX hne, hlen]
      rfl
    rw [hpacket, readHandshakeMsg_of_Decrypt _ _ hsize (Decrypt_Encrypt hX hne prv coins.ecies []),
      authRespV4.decodePlain_eq pub nonce]
    rfl
  case neg =>
    have hlen := hR.encodeResp_length ⟨pub, nonce, 4⟩ rfl
    simp only [packet, hp, if_false]
    rw [readHandshakeMsg_sealEIP8 hX _ _ coins hr (by decide) (by rw [hlen]; decide)
      (by rw [hlen]; decide), hR.decodeResp_encode _ _ rfl]
    rfl

/-- The recipient of an auth packet from the holder of `prvA`, signed with the
ephemeral key `e`: it answers in the encoding it was addressed in, and
derives its secrets from the initiator's nonce, its own nonce and the two
ephemeral keys. -/
theorem receiverEncHandshake_sealAuth (enc : AuthEncoding) (msg : authMsgV4) (hv : msg.Version = 4)
    {prvA prvB e token : List UInt8} (hpub : msg.InitiatorPubkey.toList = X.pub prvA)
    (htok : X.generateShared prvB (X.pub prvA) = some token)
    (hrec : X.ecrecover (xor token msg.Nonce.toList) msg.Signature.toList = some (4 :: X.pub e))
    {h : encHandshake} (hr : h.remote = X.pub prvB) (coins coinsB : Coins) :
    let authPacket := sealAuth X R enc msg h coins
    let hB : encHandshake :=
      { initiator := false, remote := X.pub prvA, initNonce := msg.Nonce.toList,
        respNonce := coinsB.nonce.toList, randomPrivKey := coinsB.ephemeral,
        remoteRandomPub := some (X.pub e) }
    let reply : authRespV4 :=
      { RandomPubkey := copyInto 64 (X.pub coinsB.ephemeral), Nonce := coinsB.nonce, Version := 4 }
    let replyPacket :=
      if enc = .plain then reply.sealPlain X hB coinsB else sealEIP8 X (R.encodeResp reply) hB coinsB
    receiverEncHandshake X R prvB coinsB authPacket =
      (do let s ← hB.secrets X authPacket replyPacket; pure (s, replyPacket)) := by
  intro authPacket hB reply replyPacket
  have hread := readHandshakeMsg_sealAuth hX hR enc hv hr coins
  have hauth : encHandshake.handleAuthMsg X ⟨false, [], [], [], [], none⟩
      { msg with gotPlain := decide (enc = .plain) } prvB coinsB.ephemeral =
      some { initiator := false, remote := X.pub prvA, initNonce := msg.Nonce.toList, respNonce := [],
             randomPrivKey := coinsB.ephemeral, remoteRandomPub := importPublicKey X (4 :: X.pub e) } :=
    encHandshake.handleAuthMsg_eq (by rw [hpub]; exact importPublicKey_pub hX prvA) htok hrec
  simp [receiverEncHandshake, authPacket, hread, hauth, encHandshake.makeAuthResp,
    importPublicKey_marshal hX, hB, replyPacket, reply]

/-- The initiator, on a reply from the recipient it addressed, adopts the
recipient's nonce and ephemeral key and derives its secrets. -/
theorem initiatorFinish_reply (plain : Prop) [Decidable plain] (reply : authRespV4)
    (hv : reply.Version = 4) {e : List UInt8} (hpub : reply.RandomPubkey.toList = X.pub e)
    {prvA : List UInt8} (hB : encHandshake) (hr : hB.remote = X.pub prvA) (coinsB : Coins) (h : encHandshake)
    (authPacket : List UInt8) :
    let replyPacket :=
      if plain then reply.sealPlain X hB coinsB else sealEIP8 X (R.encodeResp reply) hB coinsB
    initiatorFinish X R h prvA authPacket replyPacket =
      encHandshake.secrets X { h with respNonce := reply.Nonce.toList, remoteRandomPub := some (X.pub e) }
        authPacket replyPacket := by
  intro replyPacket
  have hread := readHandshakeMsg_reply hX hR plain hv hr coinsB
  have hresp : h.handleAuthResp X reply =
      some { h with respNonce := reply.Nonce.toList, remoteRandomPub := some (X.pub e) } :=
    encHandshake.handleAuthResp_eq (by rw [hpub]; exact importPublicKey_pub hX e)
  simp [initiatorFinish, replyPacket, hread, hresp]

/-- The handshake between the holders of `prvA` and `prvB`, in either
encoding of the auth message and with any nonces, ephemeral keys and padding,
succeeds on both ends with mirrored secrets, each end's `Remote` being the
other's static key. -/
theorem handshake_derives_mirrored_secrets (enc : AuthEncoding) (prvA prvB : List UInt8)
    (coinsA coinsB : Coins) :
    ∃ sA sB, handshake X R enc prvA prvB coinsA coinsB = some (sA, sB) ∧ sA.Mirrored sB ∧
      sA.Remote = X.pub prvB ∧ sB.Remote = X.pub prvA := by
  -- the static key agreement the initiator signs and the recipient checks
  obtain ⟨token, htokA, htokB, htoklen⟩ := hX.shared prvA prvB
  obtain ⟨sig, hsig, hsiglen, hrec⟩ :=
    hX.sign (xor token coinsA.nonce.toList) coinsA.ephemeral (by simp [htoklen])
  -- the ephemeral key agreement the secrets derive from
  obtain ⟨z, hzA, hzB, -⟩ := hX.shared coinsA.ephemeral coinsB.ephemeral
  -- the initiator's message and state after `makeAuthMsg`
  set msg : authMsgV4 :=
    { gotPlain := false, Signature := copyInto 65 sig, InitiatorPubkey := copyInto 64 (X.pub prvA),
      Nonce := coinsA.nonce, Version := 4 }
  set hA : encHandshake :=
    { initiator := true, remote := X.pub prvB, initNonce := coinsA.nonce.toList, respNonce := [],
      randomPrivKey := coinsA.ephemeral, remoteRandomPub := none }
  have hstart : initiatorStart X R enc prvA (X.pub prvB) coinsA =
      some (hA, sealAuth X R enc msg hA coinsA) := by
    simp [initiatorStart, encHandshake.makeAuthMsg_eq (h := ⟨true, X.pub prvB, [], [], [], none⟩) htokA hsig,
      msg, hA]
  -- the recipient's state and reply once it has answered
  set hB : encHandshake :=
    { initiator := false, remote := X.pub prvA, initNonce := coinsA.nonce.toList,
      respNonce := coinsB.nonce.toList, randomPrivKey := coinsB.ephemeral,
      remoteRandomPub := some (X.pub coinsA.ephemeral) }
  set reply : authRespV4 :=
    { RandomPubkey := copyInto 64 (X.pub coinsB.ephemeral), Nonce := coinsB.nonce, Version := 4 }
  -- the initiator's state once it has read the reply
  set hA' : encHandshake :=
    { hA with respNonce := coinsB.nonce.toList, remoteRandomPub := some (X.pub coinsB.ephemeral) }
  set authPacket := sealAuth X R enc msg hA coinsA
  set replyPacket :=
    if enc = .plain then reply.sealPlain X hB coinsB else sealEIP8 X (R.encodeResp reply) hB coinsB
  have hrecv : receiverEncHandshake X R prvB coinsB authPacket =
      (do let s ← hB.secrets X authPacket replyPacket; pure (s, replyPacket)) :=
    receiverEncHandshake_sealAuth hX hR enc msg rfl
      (toList_copyInto_of_length (hX.pub_length prvA)) htokB
      (by rw [toList_copyInto_of_length hsiglen]; exact hrec) (h := hA) rfl coinsA coinsB
  have hfinish : initiatorFinish X R hA prvA authPacket replyPacket =
      hA'.secrets X authPacket replyPacket :=
    initiatorFinish_reply hX hR (enc = .plain) reply rfl
      (toList_copyInto_of_length (hX.pub_length coinsB.ephemeral)) hB rfl coinsB hA authPacket
  obtain ⟨sA, sB, hsA, hsB, hmirror, hremA, hremB⟩ :=
    encHandshake.secrets_mirrored (X := X) hA' hB authPacket replyPacket
      rfl rfl hzA hzB rfl rfl rfl rfl
  refine ⟨sA, sB, ?_, hmirror, hremA, hremB⟩
  simp [handshake, hstart, hrecv, hfinish, hsA, hsB]
end

/-- Toy operations meeting `Crypto.Lawful`: a Diffie-Hellman over the
multiplication of bytes, signatures that carry the signer's key, and an ECIES
that only frames the message. -/
def toyCrypto : Crypto where
  pub k := List.replicate 64 (k.headD 0)
  generateShared a p := some (List.replicate 32 (a.headD 0 * p.headD 0))
  sign _ k := some (List.replicate 64 (k.headD 0) ++ [0])
  ecrecover _ sig := some (4 :: sig.take 64)
  unmarshalPubkey b := if b.length = 65 ∧ b.headD 0 = 4 then some b.tail else none
  eciesBody _ _ m _ := List.replicate 16 0 ++ m ++ List.replicate 32 0
  eciesOpen _ _ rest _ :=
    if rest.length < 48 then none else some ((rest.drop 16).take (rest.length - 48))
  keccak d := List.replicate 32 (d.headD 0)

theorem toyCrypto_lawful : toyCrypto.Lawful where
  pub_length _ := by simp [toyCrypto]
  shared a b := ⟨_, rfl, by simp [toyCrypto, mul_comm], by simp⟩
  sign _ k _ := ⟨_, rfl, by simp, by simp [toyCrypto]⟩
  unmarshal _ := by simp [toyCrypto]
  body_length _ _ m _ := by simp [toyCrypto]
  open_body _ _ m _ := by simp [toyCrypto, List.drop_append]
  keccak_length _ := by simp [toyCrypto]

/-- A toy RLP of the two messages, their fields one after the other and a
tail of zeros. -/
def toyRLP : HandshakeRLP where
  encodeAuth m := m.Signature.toList ++ m.InitiatorPubkey.toList ++ m.Nonce.toList ++ List.replicate 8 0
  decodeAuth b := some { gotPlain := false, Signature := copyInto 65 b,
                         InitiatorPubkey := copyInto 64 (b.drop 65),
                         Nonce := copyInto 32 ((b.drop 65).drop 64),
                         Version := 4 }
  encodeResp m := m.RandomPubkey.toList ++ m.Nonce.toList ++ List.replicate 6 0
  decodeResp b := some { RandomPubkey := copyInto 64 b, Nonce := copyInto 32 (b.drop 64), Version := 4 }

theorem toyRLP_lawful : toyRLP.Lawful where
  decodeAuth_encode m _ hv := by
    obtain ⟨g, sig, ip, nonce, v⟩ := m
    simp only at hv
    subst hv
    simp [toyRLP, List.append_assoc, -List.drop_drop]
  encodeAuth_length _ _ := by simp [toyRLP]
  decodeResp_encode m _ hv := by
    obtain ⟨pub, nonce, v⟩ := m
    simp only at hv
    subst hv
    simp [toyRLP, List.append_assoc]
  encodeResp_length _ _ := by simp [toyRLP]

theorem handshake_derives_mirrored_secrets_toy :
    ∃ sA sB, handshake toyCrypto toyRLP .eip8 [1] [2] ⟨Vector.replicate 32 3, [5], 17, [7]⟩
        ⟨Vector.replicate 32 4, [6], 0, [8]⟩ = some (sA, sB) ∧ sA.Mirrored sB ∧
      sA.Remote = toyCrypto.pub [2] ∧ sB.Remote = toyCrypto.pub [1] :=
  handshake_derives_mirrored_secrets toyCrypto_lawful toyRLP_lawful .eip8 [1] [2] _ _

end Btp.Rlpx
