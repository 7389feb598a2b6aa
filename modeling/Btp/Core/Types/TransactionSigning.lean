import Mathlib
import Btp.Common.Types
import Btp.Lib.ByteBits
import Btp.Lib.Rlp

/-!
# Transaction signing and sender recovery

`core/types/transaction_signing.go`: the three signers (`FrontierSigner`,
`HomesteadSigner`, `EIP155Signer`), `SignTx`, and `Sender` with the sender
cached on the transaction; `recoverPlain` with `crypto.ValidateSignatureValues`
of `crypto/crypto.go`; `deriveChainId` and `isProtectedV` of
`core/types/transaction.go`.

The secp256k1 operations of `crypto`, Keccak and `rlpHash` are given as
operations (`Crypto`) with the laws of `Crypto.Lawful`: a signature of 65
bytes whose values pass the Homestead check, recovered to the signer's public
key. A chain id is a non-negative `*big.Int`, with nil for zero; `V`, `R`,
`S` are non-negative, as RLP decodes them; `big.Int.BitLen` is `Nat.size`.
The slice expressions of `recoverPlain` that would go out of range panic:
`none`.

With a positive chain id, or with the Frontier and Homestead signers, the
sender of a transaction signed with a key is the key's address; an EIP-155
signature is rejected by the signers of other chain ids; and the cached sender
is what the signer passed would derive (`signing_round_trip`). With chain id
zero, `SignTx` signs the EIP-155 hash but writes an unprotected `V`, and
`Sender` recovers from the Homestead hash (`Sender_SignTx_chainId_zero`).
-/

namespace Btp.Types.Signing

open ByteBits

/-! ## Crypto -/

/-- The operations the signers call: `crypto.Sign`, `crypto.Ecrecover`, the
public key of a private key as `FromECDSAPub` marshals it, `crypto.Keccak256`
and `rlpHash`. -/
structure Crypto (Key : Type) where
  Sign : Hash → Key → List UInt8
  Ecrecover : Hash → List UInt8 → Option (List UInt8)
  pub : Key → List UInt8
  Keccak256 : List UInt8 → List UInt8
  rlpHash : Rlp.Value → Hash

/-- `secp256k1N`, the order of the curve. -/
def secp256k1N : Nat := 0xfffffffffffffffffffffffffffffffebaaedce6af48a03bbfd25e8cd0364141

/-- `secp256k1halfN`. -/
def secp256k1halfN : Nat := secp256k1N / 2

/-- `crypto.ValidateSignatureValues`. -/
def ValidateSignatureValues (v : UInt8) (r s : Nat) (homestead : Bool) : Bool :=
  if r < 1 ∨ s < 1 then false
  -- reject upper range of s values (ECDSA malleability)
  else if homestead ∧ s > secp256k1halfN then false
  -- Frontier: allow s to be in full N range
  else r < secp256k1N ∧ s < secp256k1N ∧ (v = 0 ∨ v = 1)

/-- The `R`, `S` and recovery id of a 65-byte signature `[R || S || V]`. -/
def sigR (sig : List UInt8) : Nat := ofBytesBE (sig.take 32)

def sigS (sig : List UInt8) : Nat := ofBytesBE ((sig.drop 32).take 32)

def sigV (sig : List UInt8) : UInt8 := sig.getD 64 0

/-- Signing and recovery inverse to each other, on 65-byte signatures whose
values pass the Homestead check; an uncompressed public key; 32-byte Keccak
hashes. -/
structure Crypto.Lawful {Key : Type} (X : Crypto Key) : Prop where
  length_Sign : ∀ h k, (X.Sign h k).length = 65
  valid_Sign : ∀ h k, ValidateSignatureValues (sigV (X.Sign h k)) (sigR (X.Sign h k)) (sigS (X.Sign h k)) true
  Ecrecover_Sign : ∀ h k, X.Ecrecover h (X.Sign h k) = some (X.pub k)
  head_pub : ∀ k, (X.pub k).head? = some 4
  length_Keccak256 : ∀ b, (X.Keccak256 b).length = 32

/-- `common.BytesToAddress`: the last 20 bytes, zeros in front. -/
def BytesToAddress (b : List UInt8) : Address := BitVec.ofNat 160 (ofBytesBE b)

/-- `copy(addr[:], b)`: the first 20 bytes, zeros after. -/
def copyAddress (b : List UInt8) : Address :=
  BitVec.ofNat 160 (ofBytesBE (b.take 20 ++ List.replicate (20 - b.length) 0))

variable {Key : Type}

/-- `crypto.PubkeyToAddress` of a key's public key. -/
def PubkeyToAddress (X : Crypto Key) (k : Key) : Address :=
  BytesToAddress ((X.Keccak256 ((X.pub k).drop 1)).drop 12)

/-! ## Transactions and signers -/

/-- `txdata`, by the fields the signers read. -/
structure txdata where
  AccountNonce : Nat
  Price : Nat
  GasLimit : Nat
  /-- nil means contract creation -/
  Recipient : Option Address
  Amount : Nat
  Payload : List UInt8
  V : Nat
  R : Nat
  S : Nat
  deriving DecidableEq, Repr

/-- `EIP155Signer`; `NewEIP155Signer` is its only constructor, so that
`chainIdMul` is twice the chain id. -/
structure EIP155Signer where
  chainId : Nat
  chainIdMul : Nat
  chainIdMul_eq : chainIdMul = 2 * chainId

/-- `NewEIP155Signer`: a nil chain id is zero. -/
def NewEIP155Signer (chainId : Option Nat) : EIP155Signer :=
  let chainId := chainId.getD 0
  ⟨chainId, 2 * chainId, rfl⟩

/-- The implementations of the `Signer` interface. -/
inductive Signer where
  | EIP155 (s : EIP155Signer)
  | Homestead
  | Frontier

/-- `sigCache`: the signer a sender was derived with, and the sender. -/
structure sigCache where
  signer : Signer
  «from» : Address

/-- `Transaction`: its data and its cached sender. -/
structure Transaction where
  data : txdata
  «from» : Option sigCache

/-- `MakeSigner`, by whether EIP-155 and Homestead are active at the block
and by the config's chain id. -/
def MakeSigner (IsEIP155 IsHomestead : Bool) (ChainID : Option Nat) : Signer :=
  if IsEIP155 then .EIP155 (NewEIP155Signer ChainID)
  else if IsHomestead then .Homestead
  else .Frontier

/-- `Signer.Equal`: the same kind of signer, and for EIP-155 the same chain
id. -/
def Signer.Equal : Signer → Signer → Bool
  | .EIP155 s, .EIP155 eip155 => eip155.chainId = s.chainId
  | .Homestead, .Homestead => true
  | .Frontier, .Frontier => true
  | _, _ => false

/-- The RLP string of a non-negative integer. -/
def encodeBig (n : Nat) : Rlp.Value := .str (Rlp.putint n)

/-- The 20 bytes of an address, most significant first. -/
def addressBytes (a : Address) : List UInt8 :=
  (List.range 20).map fun i => ((a.toNat / 256 ^ (19 - i)) % 256).toUInt8

/-- The RLP string of a `*common.Address`: empty for nil. -/
def encodeAddress : Option Address → Rlp.Value
  | none => .str []
  | some a => .str (addressBytes a)

/-- The six fields every signer hashes. -/
def txFields (tx : txdata) : List Rlp.Value :=
  [encodeBig tx.AccountNonce, encodeBig tx.Price, encodeBig tx.GasLimit, encodeAddress tx.Recipient,
    encodeBig tx.Amount, .str tx.Payload]

/-- `FrontierSigner.Hash`, which `HomesteadSigner` inherits. -/
def FrontierHash (X : Crypto Key) (tx : txdata) : Hash := X.rlpHash (.list (txFields tx))

/-- `EIP155Signer.Hash`: the six fields, then the chain id and two zeros. -/
def EIP155Hash (X : Crypto Key) (s : EIP155Signer) (tx : txdata) : Hash :=
  X.rlpHash (.list (txFields tx ++ [encodeBig s.chainId, encodeBig 0, encodeBig 0]))

/-- `Signer.Hash`. -/
def Signer.Hash (X : Crypto Key) : Signer → txdata → Hash
  | .EIP155 s, tx => EIP155Hash X s tx
  | .Homestead, tx => FrontierHash X tx
  | .Frontier, tx => FrontierHash X tx

/-- `FrontierSigner.SignatureValues`: `R`, `S` and `V = sig[64] + 27`; a
signature of other than 65 bytes panics. -/
def FrontierSignatureValues (sig : List UInt8) : Option (Nat × Nat × Nat) :=
  if sig.length ≠ 65 then none
  else some (sigR sig, sigS sig, (sigV sig + 27).toNat)

/-- `Signer.SignatureValues`. The EIP-155 signer writes `sig[64] + 35 + 2c`
for a chain id `c` other than zero, and the Homestead values for zero. -/
def Signer.SignatureValues : Signer → List UInt8 → Option (Nat × Nat × Nat)
  | .EIP155 s, sig => do
    let (R, S, V) ← FrontierSignatureValues sig
    if s.chainId ≠ 0 then return (R, S, (sigV sig + 35).toNat + s.chainIdMul)
    return (R, S, V)
  | .Homestead, sig => FrontierSignatureValues sig
  | .Frontier, sig => FrontierSignatureValues sig

/-- `isProtectedV`: anything not 27 or 28 is considered protected. -/
def isProtectedV (V : Nat) : Bool :=
  if Nat.size V ≤ 8 then V ≠ 27 ∧ V ≠ 28 else true

/-- `deriveChainId`: the `uint64` subtraction wraps. -/
def deriveChainId (v : Nat) : Nat :=
  if Nat.size v ≤ 64 then
    if v = 27 ∨ v = 28 then 0 else ((v + 2 ^ 64 - 35) % 2 ^ 64) / 2
  else (v - 35) / 2

/-- The errors of recovery. -/
inductive SignError where
  | ErrInvalidChainId
  | ErrInvalidSig
  /-- the error of `crypto.Ecrecover` -/
  | recoverFailed
  /-- "invalid public key" -/
  | invalidPublicKey
  deriving DecidableEq, Repr

/-- The end of `recoverPlain`: recover the public key from the signature and
hash it to an address. -/
def recoverSig (X : Crypto Key) (sighash : Hash) (sig : List UInt8) : Except SignError Address :=
  match X.Ecrecover sighash sig with
  | none => .error .recoverFailed
  | some pub =>
    -- `len(pub) == 0 || pub[0] != 4`
    if pub.head? ≠ some 4 then .error .invalidPublicKey
    else .ok (copyAddress ((X.Keccak256 (pub.drop 1)).drop 12))

/-- `recoverPlain`. `byte(Vb.Uint64() - 27)` wraps; `Vb` is a `big.Int` that
the EIP-155 signer may have made negative, and `Uint64` reads its magnitude. -/
def recoverPlain (X : Crypto Key) (sighash : Hash) (R S : Nat) (Vb : Int) (homestead : Bool) :
    Option (Except SignError Address) :=
  if Nat.size Vb.natAbs > 8 then some (.error .ErrInvalidSig)
  else
    let V : UInt8 := Vb.natAbs.toUInt8 - 27
    if !ValidateSignatureValues V R S homestead then some (.error .ErrInvalidSig)
    else
      -- encode the signature in uncompressed format
      let r := toBytesBE R
      let s := toBytesBE S
      -- `copy(sig[32-len(r):32], r)` panics for more than 32 bytes
      if r.length > 32 ∨ s.length > 32 then none
      else
        let sig := List.replicate (32 - r.length) 0 ++ r ++ List.replicate (32 - s.length) 0 ++ s ++ [V]
        some (recoverSig X sighash sig)

/-- `Signer.Sender`. The EIP-155 signer hands an unprotected transaction to
the Homestead signer. -/
def Signer.Sender (X : Crypto Key) : Signer → txdata → Option (Except SignError Address)
  | .EIP155 s, tx =>
    if !isProtectedV tx.V then recoverPlain X (FrontierHash X tx) tx.R tx.S tx.V true
    else if deriveChainId tx.V ≠ s.chainId then some (.error .ErrInvalidChainId)
    else recoverPlain X (EIP155Hash X s tx) tx.R tx.S ((tx.V : Int) - s.chainIdMul - 8) true
  | .Homestead, tx => recoverPlain X (FrontierHash X tx) tx.R tx.S tx.V true
  | .Frontier, tx => recoverPlain X (FrontierHash X tx) tx.R tx.S tx.V false

/-- `types.Sender`: the cached sender if it was derived with an equal
signer, else the signer's, which is then cached. -/
def Sender (X : Crypto Key) (signer : Signer) (tx : Transaction) :
    Option (Except SignError Address × Transaction) :=
  match tx.«from».filter fun sc => sc.signer.Equal signer with
  | some sc => some (.ok sc.«from», tx)
  | none =>
    (signer.Sender X tx.data).map fun
      | .error e => (.error e, tx)
      | .ok addr => (.ok addr, { tx with «from» := some ⟨signer, addr⟩ })

/-- `Transaction.WithSignature`: a copy with the signature values and no
cached sender. -/
def Transaction.WithSignature (tx : Transaction) (signer : Signer) (sig : List UInt8) :
    Option Transaction := do
  let (R, S, V) ← signer.SignatureValues sig
  return ⟨{ tx.data with R := R, S := S, V := V }, none⟩

/-- `SignTx`; `crypto.Sign` does not fail on a 32-byte hash. -/
def SignTx (X : Crypto Key) (tx : Transaction) (s : Signer) (prv : Key) : Option Transaction :=
  let h := s.Hash X tx.data
  let sig := X.Sign h prv
  tx.WithSignature s sig

/-! ## Recovering a signature -/

theorem ValidateSignatureValues_eq_true {v : UInt8} {r s : Nat} {homestead : Bool} :
    ValidateSignatureValues v r s homestead = true ↔
      1 ≤ r ∧ 1 ≤ s ∧ (homestead = true → s ≤ secp256k1halfN) ∧ r < secp256k1N ∧ s < secp256k1N ∧
        (v = 0 ∨ v = 1) := by
  unfold ValidateSignatureValues
  by_cases h1 : r < 1 ∨ s < 1
  · rw [if_pos h1]
    simp only [Bool.false_eq_true, false_iff]
    omega
  · rw [if_neg h1]
    by_cases h2 : homestead = true ∧ s > secp256k1halfN
    · rw [if_pos h2]
      simp only [Bool.false_eq_true, false_iff]
      intro h
      exact absurd (h.2.2.1 h2.1) (by omega)
    · rw [if_neg h2]
      simp only [decide_eq_true_eq]
      constructor
      · rintro ⟨hr, hs, hv⟩
        exact ⟨by omega, by omega, fun hh => by by_contra hgt; exact h2 ⟨hh, by omega⟩, hr, hs, hv⟩
      · rintro ⟨-, -, -, hr, hs, hv⟩
        exact ⟨hr, hs, hv⟩

theorem secp256k1N_lt : secp256k1N < 2 ^ 256 := by
  unfold secp256k1N
  norm_num

/-- A 65-byte signature is its `R`, its `S` and its recovery id. -/
theorem sig_eq_parts {sig : List UInt8} (hlen : sig.length = 65) :
    sig = sig.take 32 ++ (sig.drop 32).take 32 ++ [sigV sig] := by
  have h64 : (sig.drop 32).drop 32 = [sigV sig] := by
    rw [List.drop_drop, List.drop_eq_getElem_cons (by omega), List.drop_of_length_le (by omega)]
    simp [sigV, List.getD_eq_getElem?_getD, List.getElem?_eq_getElem (show 64 < sig.length by omega)]
  calc sig = sig.take 32 ++ sig.drop 32 := (List.take_append_drop 32 sig).symm
    _ = sig.take 32 ++ ((sig.drop 32).take 32 ++ (sig.drop 32).drop 32) := by
      rw [List.take_append_drop 32 (sig.drop 32)]
    _ = sig.take 32 ++ (sig.drop 32).take 32 ++ [sigV sig] := by rw [h64, List.append_assoc]

/-- The signature `recoverPlain` rebuilds from the values of a 65-byte
signature is that signature. -/
theorem rebuild_eq {sig : List UInt8} (hlen : sig.length = 65) :
    List.replicate (32 - (toBytesBE (sigR sig)).length) 0 ++ toBytesBE (sigR sig) ++
      List.replicate (32 - (toBytesBE (sigS sig)).length) 0 ++ toBytesBE (sigS sig) ++ [sigV sig] = sig := by
  have hpadR : List.replicate (32 - (toBytesBE (sigR sig)).length) 0 ++ toBytesBE (sigR sig) =
      sig.take 32 := by
    have := replicate_append_toBytesBE_ofBytesBE (sig.take 32)
    rwa [List.length_take_of_le (by omega)] at this
  have hpadS : List.replicate (32 - (toBytesBE (sigS sig)).length) 0 ++ toBytesBE (sigS sig) =
      (sig.drop 32).take 32 := by
    have := replicate_append_toBytesBE_ofBytesBE ((sig.drop 32).take 32)
    rwa [List.length_take_of_le (by simp; omega)] at this
  calc _ = (List.replicate (32 - (toBytesBE (sigR sig)).length) 0 ++ toBytesBE (sigR sig)) ++
        (List.replicate (32 - (toBytesBE (sigS sig)).length) 0 ++ toBytesBE (sigS sig)) ++ [sigV sig] := by
        simp only [List.append_assoc]
    _ = sig := by rw [hpadR, hpadS]; exact (sig_eq_parts hlen).symm

/-- `SignTx`: a copy of the transaction with the values of the signature of
the signer's hash, and no cached sender. -/
theorem SignTx_eq (tx : Transaction) (s : Signer) (k : Key) {R S V : Nat}
    (hv : s.SignatureValues (X.Sign (s.Hash X tx.data) k) = some (R, S, V)) :
    SignTx X tx s k = some ⟨{ tx.data with R := R, S := S, V := V }, none⟩ := by
  simp only [SignTx, Transaction.WithSignature, hv, Option.bind_eq_bind, Option.bind_some]
  rfl

/-! ## The cached sender -/

theorem EIP155Signer.eq_of_chainId {s t : EIP155Signer} (h : s.chainId = t.chainId) : s = t := by
  obtain ⟨c, m, hm⟩ := s
  obtain ⟨c', m', hm'⟩ := t
  dsimp only at h
  subst h hm hm'
  rfl

/-- Equal signers are the same signer: an EIP-155 signer is its chain id. -/
theorem Signer.eq_of_Equal {a b : Signer} (h : a.Equal b = true) : b = a := by
  cases a with
  | EIP155 s =>
    cases b with
    | EIP155 t => exact congrArg Signer.EIP155 (EIP155Signer.eq_of_chainId (of_decide_eq_true h))
    | Homestead => exact absurd h Bool.false_ne_true
    | Frontier => exact absurd h Bool.false_ne_true
  | Homestead => cases b <;> first | rfl | exact absurd h Bool.false_ne_true
  | Frontier => cases b <;> first | rfl | exact absurd h Bool.false_ne_true

/-- The sender cached on a transaction is the one its signer derives. -/
def CacheSound (X : Crypto Key) (tx : Transaction) : Prop :=
  ∀ sc, tx.«from» = some sc → sc.signer.Sender X tx.data = some (.ok sc.«from»)

/-- On a transaction whose cache is sound, `Sender` answers what the signer
passed derives. -/
theorem Sender_of_CacheSound {X : Crypto Key} {tx : Transaction} (hc : CacheSound X tx) (s : Signer) :
    (Sender X s tx).map Prod.fst = s.Sender X tx.data := by
  unfold Sender
  cases hf : tx.«from».filter fun sc => sc.signer.Equal s with
  | some sc =>
    -- a hit: the cached signer is the signer passed
    obtain ⟨hsc, heq⟩ := Option.filter_eq_some_iff.1 hf
    rw [Signer.eq_of_Equal heq, hc sc hsc]
    rfl
  | none =>
    cases s.Sender X tx.data with
    | none => rfl
    | some r => cases r <;> rfl

/-- `Sender` keeps the cache sound, and the transaction's data. -/
theorem CacheSound.of_Sender {X : Crypto Key} {tx tx' : Transaction} {s : Signer}
    {r : Except SignError Address} (hc : CacheSound X tx) (h : Sender X s tx = some (r, tx')) :
    CacheSound X tx' ∧ tx'.data = tx.data := by
  unfold Sender at h
  cases hf : tx.«from».filter fun sc => sc.signer.Equal s with
  | some sc =>
    rw [hf] at h
    cases h
    exact ⟨hc, rfl⟩
  | none =>
    rw [hf] at h
    obtain ⟨res, hres, hpair⟩ := Option.map_eq_some_iff.1 h
    cases res with
    | error e =>
      cases hpair
      exact ⟨hc, rfl⟩
    | ok addr =>
      -- a miss stores the signer passed with what it derived
      cases hpair
      exact ⟨fun sc hsc => by cases hsc; exact hres, rfl⟩

/-- The transactions a program holds: built or signed with no cached sender,
then passed to `Sender` any number of times, with any signers. -/
inductive Reach (X : Crypto Key) : Transaction → Prop
  | fresh (d : txdata) : Reach X ⟨d, none⟩
  | sender {tx tx' : Transaction} {s : Signer} {r : Except SignError Address} :
      Reach X tx → Sender X s tx = some (r, tx') → Reach X tx'

theorem Reach.cacheSound {X : Crypto Key} {tx : Transaction} (h : Reach X tx) : CacheSound X tx := by
  induction h with
  | fresh d => exact fun sc hsc => nomatch hsc
  | sender _ hs ih => exact (ih.of_Sender hs).1

theorem isProtectedV_unprotected {v : Nat} (hv : v ≤ 1) : isProtectedV (v + 27) = false := by
  have hsize : Nat.size (v + 27) ≤ 8 := Nat.size_le.2 (by omega)
  rw [isProtectedV, if_pos hsize]
  simp only [decide_eq_false_iff_not, not_and, not_not]
  omega

theorem isProtectedV_EIP155 (v c : Nat) : isProtectedV (v + 35 + 2 * c) = true := by
  unfold isProtectedV
  split_ifs
  · simp only [decide_eq_true_eq]
    omega
  · rfl

theorem deriveChainId_EIP155 {v : Nat} (hv : v ≤ 1) (c : Nat) : deriveChainId (v + 35 + 2 * c) = c := by
  unfold deriveChainId
  split_ifs with hsize h27
  · omega
  · -- no `uint64` wrap: the value is at least 35
    rw [show v + 35 + 2 * c + 2 ^ 64 - 35 = v + 2 * c + 2 ^ 64 by omega, Nat.add_mod_right,
      Nat.mod_eq_of_lt (by have := Nat.size_le.1 hsize; omega)]
    omega
  · omega

/-- A freshly signed transaction: `Sender` of a signer derives what the
signer recovers from the signed data. -/
theorem Sender_SignTx {X : Crypto Key} {tx tx' : Transaction} {s s' : Signer} {k : Key} (h : SignTx X tx s k = some tx') :
    (Sender X s' tx').map Prod.fst = s'.Sender X tx'.data := by
  have hfresh : tx'.«from» = none := by
    unfold SignTx Transaction.WithSignature at h
    obtain ⟨v, -, hv⟩ := Option.bind_eq_some_iff.1 h
    cases hv
    rfl
  exact Sender_of_CacheSound (fun sc hsc => by rw [hfresh] at hsc; cases hsc) s'

section Lawful

variable {X : Crypto Key} (hX : X.Lawful)
include hX

theorem Crypto.Lawful.valid (h : Hash) (k : Key) (homestead : Bool) :
    ValidateSignatureValues (sigV (X.Sign h k)) (sigR (X.Sign h k)) (sigS (X.Sign h k)) homestead := by
  obtain ⟨hr, hs, -, hrN, hsN, hv⟩ := ValidateSignatureValues_eq_true.1 (hX.valid_Sign h k)
  exact ValidateSignatureValues_eq_true.2 ⟨hr, hs, fun _ => by
    obtain ⟨-, -, hhalf, -⟩ := ValidateSignatureValues_eq_true.1 (hX.valid_Sign h k)
    exact hhalf rfl, hrN, hsN, hv⟩

theorem Crypto.Lawful.sigV_eq (h : Hash) (k : Key) : sigV (X.Sign h k) = 0 ∨ sigV (X.Sign h k) = 1 :=
  (ValidateSignatureValues_eq_true.1 (hX.valid_Sign h k)).2.2.2.2.2

/-- **Recovery of a signature.** From the values of a signature of `h`, with
`V` written as `27` plus the recovery id, `recoverPlain` recovers from the
hash it is given the public key of the signature itself. -/
theorem recoverPlain_Sign (h h' : Hash) (k : Key) (homestead : Bool) :
    recoverPlain X h' (sigR (X.Sign h k)) (sigS (X.Sign h k)) (((sigV (X.Sign h k)).toNat + 27 : Nat) : Int)
      homestead = some (recoverSig X h' (X.Sign h k)) := by
  have hR : sigR (X.Sign h k) < 2 ^ (8 * 32) :=
    lt_trans (ValidateSignatureValues_eq_true.1 (hX.valid_Sign h k)).2.2.2.1 secp256k1N_lt
  have hS : sigS (X.Sign h k) < 2 ^ (8 * 32) :=
    lt_trans (ValidateSignatureValues_eq_true.1 (hX.valid_Sign h k)).2.2.2.2.1 secp256k1N_lt
  -- `V` is 27 or 28, which `byte(V - 27)` takes back to the recovery id
  have hV : (((sigV (X.Sign h k)).toNat + 27 : Nat) : Int).natAbs.toUInt8 - 27 = sigV (X.Sign h k) := by
    rw [Int.natAbs_natCast]
    rcases hX.sigV_eq h k with hv | hv <;> rw [hv] <;> decide
  have hsize : ¬ Nat.size (((sigV (X.Sign h k)).toNat + 27 : Nat) : Int).natAbs > 8 := by
    rw [Int.natAbs_natCast, not_lt, Nat.size_le]
    rcases hX.sigV_eq h k with hv | hv <;> rw [hv] <;> decide
  unfold recoverPlain
  rw [if_neg hsize]
  dsimp only
  rw [hV, hX.valid h k homestead, Bool.not_true, if_neg Bool.false_ne_true,
    if_neg (by have := length_toBytesBE_le hR; have := length_toBytesBE_le hS; omega),
    rebuild_eq (hX.length_Sign h k)]

/-- Recovery from the hash that was signed gives the signer's address. -/
theorem recoverSig_Sign (h : Hash) (k : Key) :
    recoverSig X h (X.Sign h k) = .ok (PubkeyToAddress X k) := by
  simp only [recoverSig, hX.Ecrecover_Sign, hX.head_pub, ne_eq, not_true_eq_false, if_false]
  -- the last 20 bytes of the 32-byte hash are copied whole
  have hlen : (X.Keccak256 ((X.pub k).drop 1)).length = 32 := hX.length_Keccak256 _
  rw [PubkeyToAddress, BytesToAddress, copyAddress, List.drop_one]
  rw [List.drop_one] at hlen
  rw [List.take_of_length_le (by simp; omega), List.length_drop, hlen, Nat.sub_self,
    List.replicate_zero, List.append_nil]

/-! ## Signing with each signer -/

theorem toNat_sigV_add (h : Hash) (k : Key) (c : Nat) (hc : c ≤ 35) :
    (sigV (X.Sign h k) + c.toUInt8).toNat = (sigV (X.Sign h k)).toNat + c := by
  rcases hX.sigV_eq h k with hv | hv <;> rw [hv] <;> simp [UInt8.toNat_add] <;> omega

/-- A signer that writes `V` as `27` plus the recovery id: Frontier,
Homestead, and EIP-155 with chain id zero. -/
def Signer.Unprotecting : Signer → Prop
  | .EIP155 s => s.chainId = 0
  | .Homestead => True
  | .Frontier => True

theorem SignatureValues_of_unprotecting {s : Signer} (hs : s.Unprotecting) (h : Hash) (k : Key) :
    s.SignatureValues (X.Sign h k) =
      some (sigR (X.Sign h k), sigS (X.Sign h k), (sigV (X.Sign h k)).toNat + 27) := by
  have hval : FrontierSignatureValues (X.Sign h k) =
      some (sigR (X.Sign h k), sigS (X.Sign h k), (sigV (X.Sign h k)).toNat + 27) := by
    rw [FrontierSignatureValues, if_neg (by rw [hX.length_Sign]; decide),
      ← toNat_sigV_add hX h k 27 (by omega)]
    rfl
  cases s with
  | EIP155 e =>
    simp only [Signer.SignatureValues, hval, Option.bind_eq_bind, Option.bind_some]
    rw [if_neg (not_not.2 (show e.chainId = 0 from hs))]
    rfl
  | Homestead => exact hval
  | Frontier => exact hval

theorem SignatureValues_EIP155 {e : EIP155Signer} (he : e.chainId ≠ 0) (h : Hash) (k : Key) :
    (Signer.EIP155 e).SignatureValues (X.Sign h k) =
      some (sigR (X.Sign h k), sigS (X.Sign h k), (sigV (X.Sign h k)).toNat + 35 + 2 * e.chainId) := by
  have hval : FrontierSignatureValues (X.Sign h k) =
      some (sigR (X.Sign h k), sigS (X.Sign h k), (sigV (X.Sign h k) + 27).toNat) := by
    rw [FrontierSignatureValues, if_neg (by rw [hX.length_Sign]; decide)]
  simp only [Signer.SignatureValues, hval, Option.bind_eq_bind, Option.bind_some]
  rw [if_pos he, ← toNat_sigV_add hX h k 35 (by omega), e.chainIdMul_eq]
  rfl

/-! ## Recovering with each signer -/

/-- A transaction with a signature of `h` and `V` of `27` plus the recovery
id: every signer recovers from the Homestead hash. -/
theorem Sender_unprotected (s : Signer) (d : txdata) (h : Hash) (k : Key) :
    s.Sender X { d with R := sigR (X.Sign h k), S := sigS (X.Sign h k), V := (sigV (X.Sign h k)).toNat + 27 } =
      some (recoverSig X (FrontierHash X d) (X.Sign h k)) := by
  have hv : (sigV (X.Sign h k)).toNat ≤ 1 := by rcases hX.sigV_eq h k with hv | hv <;> rw [hv] <;> decide
  cases s with
  | EIP155 e =>
    rw [Signer.Sender, isProtectedV_unprotected hv, Bool.not_false, if_pos rfl]
    exact recoverPlain_Sign hX h _ k true
  | Homestead => exact recoverPlain_Sign hX h _ k true
  | Frontier => exact recoverPlain_Sign hX h _ k false

/-- A transaction with a signature of `h` and `V` of `35 + 2c` plus the
recovery id: the EIP-155 signer of chain `c` recovers from its hash, and every
other EIP-155 signer rejects the chain id. -/
theorem Sender_EIP155_signed (e : EIP155Signer) (d : txdata) (c : Nat) (h : Hash) (k : Key) :
    (Signer.EIP155 e).Sender X
        { d with R := sigR (X.Sign h k), S := sigS (X.Sign h k), V := (sigV (X.Sign h k)).toNat + 35 + 2 * c } =
      if c = e.chainId then some (recoverSig X (EIP155Hash X e d) (X.Sign h k))
      else some (.error .ErrInvalidChainId) := by
  have hv : (sigV (X.Sign h k)).toNat ≤ 1 := by rcases hX.sigV_eq h k with hv | hv <;> rw [hv] <;> decide
  rw [Signer.Sender, isProtectedV_EIP155, Bool.not_true, if_neg Bool.false_ne_true]
  dsimp only
  rw [deriveChainId_EIP155 hv]
  by_cases hce : c = e.chainId
  · -- `V - 2c - 8` is `27` plus the recovery id
    have hVb : (((sigV (X.Sign h k)).toNat + 35 + 2 * c : Nat) : Int) - e.chainIdMul - 8 =
        (((sigV (X.Sign h k)).toNat + 27 : Nat) : Int) := by
      rw [e.chainIdMul_eq, ← hce]
      push_cast
      ring
    rw [if_neg (not_not.2 hce), if_pos hce, hVb]
    exact recoverPlain_Sign hX h _ k true
  · rw [if_pos hce, if_neg hce]

end Lawful

/-- **Signing and recovery.** With a chain id other than zero where EIP-155
is active, the sender of a transaction signed by `MakeSigner`'s signer is the
key's address; a transaction signed for chain `c` is rejected with
`ErrInvalidChainId` by the EIP-155 signers of other chains and recovered by
every signer equal to its own; and on every transaction a program holds,
`Sender` answers what the signer passed derives. -/
theorem signing_round_trip {X : Crypto Key} (hX : X.Lawful) :
    (∀ (IsEIP155 IsHomestead : Bool) (ChainID : Option Nat) (tx : Transaction) (k : Key),
      (IsEIP155 = true → ChainID.getD 0 ≠ 0) →
      ∃ tx', SignTx X tx (MakeSigner IsEIP155 IsHomestead ChainID) k = some tx' ∧
        (Sender X (MakeSigner IsEIP155 IsHomestead ChainID) tx').map Prod.fst =
          some (.ok (PubkeyToAddress X k))) ∧
    (∀ (s s' : EIP155Signer) (tx tx' : Transaction) (k : Key), s.chainId ≠ 0 → s'.chainId ≠ s.chainId →
      SignTx X tx (.EIP155 s) k = some tx' →
      (Sender X (.EIP155 s') tx').map Prod.fst = some (.error .ErrInvalidChainId)) ∧
    (∀ (s : EIP155Signer) (s2 : Signer) (tx tx' : Transaction) (k : Key), s.chainId ≠ 0 →
      (Signer.EIP155 s).Equal s2 → SignTx X tx (.EIP155 s) k = some tx' →
      (Sender X s2 tx').map Prod.fst = some (.ok (PubkeyToAddress X k))) ∧
    (∀ tx, Reach X tx → ∀ s, (Sender X s tx).map Prod.fst = s.Sender X tx.data) := by
  -- an EIP-155 signer of a chain id other than zero recovers its own signatures
  have heip : ∀ (s : EIP155Signer) (tx : Transaction) (k : Key), s.chainId ≠ 0 →
      ∃ tx', SignTx X tx (.EIP155 s) k = some tx' ∧
        (Sender X (.EIP155 s) tx').map Prod.fst = some (.ok (PubkeyToAddress X k)) := by
    intro s tx k hc
    have hsign := SignTx_eq tx (.EIP155 s) k (SignatureValues_EIP155 hX hc _ k)
    refine ⟨_, hsign, ?_⟩
    rw [Sender_SignTx hsign, Sender_EIP155_signed hX s _ _ _ k, if_pos rfl]
    exact congrArg some (recoverSig_Sign hX _ k)
  refine ⟨?_, ?_, ?_, fun tx hr s => Sender_of_CacheSound hr.cacheSound s⟩
  · intro IsEIP155 IsHomestead ChainID tx k hc
    cases IsEIP155 with
    | true => exact heip _ tx k (hc rfl)
    | false =>
      -- Frontier and Homestead recover from the hash they signed
      have hun : (MakeSigner false IsHomestead ChainID).Unprotecting := by
        unfold MakeSigner
        cases IsHomestead <;> trivial
      have hhash : (MakeSigner false IsHomestead ChainID).Hash X tx.data = FrontierHash X tx.data := by
        unfold MakeSigner
        cases IsHomestead <;> rfl
      have hsign := SignTx_eq tx _ k (SignatureValues_of_unprotecting hX hun _ k)
      refine ⟨_, hsign, ?_⟩
      rw [Sender_SignTx hsign, Sender_unprotected hX, hhash]
      exact congrArg some (recoverSig_Sign hX _ k)
  · intro s s' tx tx' k hc hne hsign
    rw [SignTx_eq tx (.EIP155 s) k (SignatureValues_EIP155 hX hc _ k)] at hsign
    cases hsign
    rw [Sender_SignTx (SignTx_eq tx (.EIP155 s) k (SignatureValues_EIP155 hX hc _ k)),
      Sender_EIP155_signed hX s' _ _ _ k, if_neg (Ne.symm hne)]
  · intro s s2 tx tx' k hc heq hsign
    obtain ⟨tx'', hsign', hsender⟩ := heip s tx k hc
    rw [hsign] at hsign'
    cases hsign'
    rw [Signer.eq_of_Equal heq]
    exact hsender

/-- With chain id zero, `SignTx` signs the EIP-155 hash and writes an
unprotected `V`, and `Sender` recovers from the Homestead hash. -/
theorem Sender_SignTx_chainId_zero {X : Crypto Key} (hX : X.Lawful) {e : EIP155Signer} (he : e.chainId = 0) (tx : Transaction) (k : Key) :
    ∃ tx', SignTx X tx (.EIP155 e) k = some tx' ∧
      (Sender X (.EIP155 e) tx').map Prod.fst =
        some (recoverSig X (FrontierHash X tx.data) (X.Sign (EIP155Hash X e tx.data) k)) := by
  have hsign := SignTx_eq tx (.EIP155 e) k (SignatureValues_of_unprotecting hX (s := .EIP155 e) he _ k)
  refine ⟨_, hsign, ?_⟩
  rw [Sender_SignTx hsign, Sender_unprotected hX]
  rfl

/-! ## A lawful toy crypto -/

/-- Toy operations meeting `Crypto.Lawful`: a key `k` signs `h` with `S`
one above `k + h` modulo 255, and recovery subtracts the hash back; the
public key is `4` and the key's residue, and Keccak keeps the first byte. -/
def toyCrypto : Crypto Nat where
  Sign h k := List.replicate 31 0 ++ [1] ++ List.replicate 31 0 ++ [(((k + h.toNat) % 255) + 1).toUInt8] ++ [0]
  Ecrecover h sig := some [4, ((((sig.getD 63 0).toNat + 254 - h.toNat % 255)) % 255).toUInt8]
  pub k := [4, (k % 255).toUInt8]
  Keccak256 b := List.replicate 31 0 ++ [b.getD 0 0]
  rlpHash v := match v with
    | .list l => BitVec.ofNat 256 l.length
    | .str _ => 0

theorem toyCrypto_lawful : toyCrypto.Lawful where
  length_Sign _ _ := by simp [toyCrypto]
  valid_Sign h k := by
    -- the signature is `R = 1`, `S` from 1 to 255, recovery id 0
    have hR : sigR (toyCrypto.Sign h k) = 1 := by
      rw [sigR, show (toyCrypto.Sign h k).take 32 = List.replicate 31 0 ++ [1] from rfl,
        ofBytesBE_replicate_zero_append]
      rfl
    have hS : sigS (toyCrypto.Sign h k) = ((k + h.toNat) % 255) + 1 := by
      rw [sigS, show ((toyCrypto.Sign h k).drop 32).take 32 =
          List.replicate 31 0 ++ [(((k + h.toNat) % 255) + 1).toUInt8] from rfl,
        ofBytesBE_replicate_zero_append, show ofBytesBE [(((k + h.toNat) % 255) + 1).toUInt8] =
          ((((k + h.toNat) % 255) + 1).toUInt8).toNat by simp [ofBytesBE],
        Rlp.toNat_toUInt8_of_lt (by omega)]
    have hV : sigV (toyCrypto.Sign h k) = 0 := rfl
    have hlt : (k + h.toNat) % 255 < 255 := Nat.mod_lt _ (by norm_num)
    rw [hR, hS, hV, ValidateSignatureValues_eq_true]
    unfold secp256k1halfN secp256k1N
    exact ⟨le_rfl, by omega, fun _ => by omega, by norm_num, by omega, .inl rfl⟩
  Ecrecover_Sign h k := by
    show some [4, (((((((k + h.toNat) % 255) + 1).toUInt8).toNat + 254 - h.toNat % 255)) % 255).toUInt8] =
      some [4, (k % 255).toUInt8]
    rw [Rlp.toNat_toUInt8_of_lt (by omega),
      show ((k + h.toNat) % 255 + 1 + 254 - h.toNat % 255) % 255 = k % 255 by omega]
  head_pub _ := rfl
  length_Keccak256 _ := by simp [toyCrypto]

/-- With the toy operations, a transaction signed with key 7 for chain 1 is
recovered as key 7's by chain 1's signer and rejected by chain 2's. -/
theorem signing_round_trip_on_chain_one :
    toyCrypto.Lawful ∧
      ∃ tx', SignTx toyCrypto ⟨⟨0, 1, 21000, none, 0, [], 0, 0, 0⟩, none⟩
          (MakeSigner true true (some 1)) 7 = some tx' ∧
        (Sender toyCrypto (MakeSigner true true (some 1)) tx').map Prod.fst =
          some (.ok (PubkeyToAddress toyCrypto 7)) ∧
        (Sender toyCrypto (.EIP155 (NewEIP155Signer (some 2))) tx').map Prod.fst =
          some (.error .ErrInvalidChainId) := by
  have h := signing_round_trip toyCrypto_lawful
  obtain ⟨tx', hsign, hsender⟩ := h.1 true true (some 1) ⟨⟨0, 1, 21000, none, 0, [], 0, 0, 0⟩, none⟩ 7
    (fun _ => by decide)
  exact ⟨toyCrypto_lawful, tx', hsign, hsender,
    h.2.1 (NewEIP155Signer (some 1)) (NewEIP155Signer (some 2)) _ tx' 7 (by decide) (by decide) hsign⟩

/-- **A nil chain id.** Where EIP-155 is active and the config has no chain
id, the sender of a transaction signed with key 7 is not key 7's address: the
EIP-155 hash was signed, and the Homestead hash is recovered from. -/
theorem SignTx_nil_chainId_recovers_other_key :
    ∃ tx', SignTx toyCrypto ⟨⟨0, 1, 21000, none, 0, [], 0, 0, 0⟩, none⟩ (MakeSigner true true none) 7 =
        some tx' ∧
      (Sender toyCrypto (MakeSigner true true none) tx').map Prod.fst ≠
        some (.ok (PubkeyToAddress toyCrypto 7)) := by
  obtain ⟨tx', hsign, hsender⟩ :=
    Sender_SignTx_chainId_zero toyCrypto_lawful (e := NewEIP155Signer none) rfl
      ⟨⟨0, 1, 21000, none, 0, [], 0, 0, 0⟩, none⟩ 7
  refine ⟨tx', hsign, ?_⟩
  rw [show MakeSigner true true none = .EIP155 (NewEIP155Signer none) from rfl, hsender]
  decide

end Btp.Types.Signing
