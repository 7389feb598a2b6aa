import Mathlib
import Btp.Lib.StreamCipher

/-!
# RLPx frames

`rlpxFrameRW` of `p2p/rlpx.go`: `newRLPXFrameRW`, `WriteMsg`, `ReadMsg`,
`updateMAC`, `readInt24` and `putInt24`. A frame is a 16-byte header holding
the frame size, encrypted and followed by its MAC, then the encrypted frame
(the RLP of the message code, the payload, zero padding to 16 bytes) and its
MAC. Both directions share the AES key in counter mode with a zero IV; each
has its own running Keccak MAC.

AES and Keccak-256 are opaque functions (`Primitives`), of which only their
output lengths are known. A Keccak hash state is the bytes written to it;
`Sum` is Keccak of them. A cipher stream is the position it has reached in
the key stream of `StreamCipher.ctrKeyStream`. RLP (for the message code) and
snappy are libraries outside `src/`: they are parameters (`Codecs`) whose
round-trip laws are `Codecs.Lawful`. The connection is a byte string: what
`WriteMsg` writes, and what `ReadMsg` has left to read. A `Msg` keeps its
code, its size and its payload; `ReceivedAt` is not modelled.
-/

namespace Btp.Rlpx

open StreamCipher

/-- AES under a key and Keccak-256, with the lengths of their outputs. -/
structure Primitives where
  aes : List UInt8 → List UInt8 → List UInt8
  aes_length : ∀ key block, (aes key block).length = 16
  keccak : List UInt8 → List UInt8
  keccak_length : ∀ data, (keccak data).length = 32

/-- `rlp.EncodeToBytes` and `rlp.Decode` for the message code, and snappy's
`Encode`, `DecodedLen` and `Decode`. `decodeCode` returns the code and the
bytes after it. -/
structure Codecs where
  encodeCode : UInt64 → List UInt8
  decodeCode : List UInt8 → Option (UInt64 × List UInt8)
  snappyEncode : List UInt8 → List UInt8
  snappyDecodedLen : List UInt8 → Option Nat
  snappyDecode : List UInt8 → Option (List UInt8)

/-- The round trips of RLP on a code followed by other bytes, and of snappy. -/
structure Codecs.Lawful (C : Codecs) : Prop where
  decode_encode : ∀ code rest, C.decodeCode (C.encodeCode code ++ rest) = some (code, rest)
  decodedLen_encode : ∀ p, C.snappyDecodedLen (C.snappyEncode p) = some p.length
  decode_snappy : ∀ p, C.snappyDecode (C.snappyEncode p) = some p

/-- `Msg`. -/
structure Msg where
  Code : UInt64
  Size : Nat
  Payload : List UInt8
  deriving DecidableEq, Repr

/-- `secrets`: the remote static key, the AES and MAC secrets, and the
bytes written to the two MAC hashes. `Token` is never set and is not
modelled. -/
structure secrets where
  Remote : List UInt8
  AES : List UInt8
  MAC : List UInt8
  EgressMAC : List UInt8
  IngressMAC : List UInt8

/-- `rlpxFrameRW`: the two keys, the positions of the encrypting and the
decrypting stream, the two MAC states and the snappy flag. -/
structure rlpxFrameRW where
  aesKey : List UInt8
  macKey : List UInt8
  enc : Nat
  dec : Nat
  egressMAC : List UInt8
  ingressMAC : List UInt8
  snappy : Bool

/-- `newRLPXFrameRW`: both streams at the start of the key stream. -/
def newRLPXFrameRW (s : secrets) : rlpxFrameRW :=
  { aesKey := s.AES, macKey := s.MAC, enc := 0, dec := 0, egressMAC := s.EgressMAC,
    ingressMAC := s.IngressMAC, snappy := false }

/-- `maxUint24`. -/
def maxUint24 : Nat := 2 ^ 24 - 1

/-- `zeroHeader`. -/
def zeroHeader : List UInt8 := [0xC2, 0x80, 0x80]

/-- `readInt24`. -/
def readInt24 (b : List UInt8) : Nat :=
  (b.getD 2 0).toNat ||| (b.getD 1 0).toNat <<< 8 ||| (b.getD 0 0).toNat <<< 16

/-- `putInt24`. -/
def putInt24 (v : Nat) : List UInt8 := [(v >>> 16).toUInt8, (v >>> 8).toUInt8, v.toUInt8]

/-- The padding of a frame to 16 bytes. -/
def padding (fsize : Nat) : Nat := if fsize % 16 > 0 then 16 - fsize % 16 else 0

/-- The errors of the frame layer. -/
inductive FrameError
  | errPlainMessageTooLarge
  | sizeOverflow
  | badHeaderMAC
  | badFrameMAC
  | unexpectedEOF
  | rlp
  | snappy
  deriving DecidableEq, Repr

section
variable (P : Primitives) (C : Codecs)

/-- The key stream of AES in counter mode under `key`. -/
def keyStream (key : List UInt8) : Nat → UInt8 := ctrKeyStream (P.aes key) 16

/-- `updateMAC`: the MAC state after absorbing the encrypted digest xored
with the seed, and the first 16 bytes of its digest. -/
def updateMAC (mac key seed : List UInt8) : List UInt8 × List UInt8 :=
  let aesbuf := List.zipWith (· ^^^ ·) (P.aes key ((P.keccak mac).take 16)) seed
  let mac := mac ++ aesbuf
  ((P.keccak mac).take 16, mac)

/-- The writing half of `WriteMsg` once the sizes are checked: the header
with its MAC, the frame with its MAC, and the state after. -/
def writeFrame (rw : rlpxFrameRW) (fsize : Nat) (content : List UInt8) :
    List UInt8 × rlpxFrameRW :=
  let headbuf := putInt24 fsize ++ zeroHeader ++ List.replicate 10 0
  let header := xorFrom (keyStream P rw.aesKey) rw.enc headbuf
  let (headMAC, egressMAC) := updateMAC P rw.egressMAC rw.macKey header
  let frame := xorFrom (keyStream P rw.aesKey) (rw.enc + 16)
    (content ++ List.replicate (padding fsize) 0)
  let egressMAC := egressMAC ++ frame
  let (mac, egressMAC) := updateMAC P egressMAC rw.macKey (P.keccak egressMAC)
  (header ++ headMAC ++ frame ++ mac, { rw with enc := rw.enc + 16 + frame.length, egressMAC })

/-- `rlpxFrameRW.WriteMsg`: the error, if any, what it writes to the
connection, and the state after. -/
def WriteMsg (rw : rlpxFrameRW) (msg : Msg) : Option FrameError × List UInt8 × rlpxFrameRW :=
  let ptype := C.encodeCode msg.Code
  let sized : Except FrameError (Nat × List UInt8) :=
    if rw.snappy then
      if msg.Size > maxUint24 then .error .errPlainMessageTooLarge
      else
        let payload := C.snappyEncode msg.Payload
        .ok (payload.length % 2 ^ 32, payload)
    else .ok (msg.Size, msg.Payload)
  match sized with
  | .error e => (some e, [], rw)
  | .ok (size, payload) =>
    let fsize := (ptype.length + size) % 2 ^ 32
    if fsize > maxUint24 then (some .sizeOverflow, [], rw)
    else
      let (written, rw) := writeFrame P rw fsize (ptype ++ payload)
      (none, written, rw)

/-- The reading half of `ReadMsg`, up to the decryption of the frame: the
frame content, what is left to read and the state after. -/
def readFrame (rw : rlpxFrameRW) (wire : List UInt8) :
    Except FrameError (List UInt8 × List UInt8 × rlpxFrameRW) := do
  if wire.length < 32 then throw .unexpectedEOF
  let headbuf := wire.take 32
  let wire := wire.drop 32
  let (shouldMAC, ingressMAC) := updateMAC P rw.ingressMAC rw.macKey (headbuf.take 16)
  if shouldMAC ≠ headbuf.drop 16 then throw .badHeaderMAC
  let fsize := readInt24 (xorFrom (keyStream P rw.aesKey) rw.dec (headbuf.take 16))
  let rsize := fsize + padding fsize
  if wire.length < rsize then throw .unexpectedEOF
  let framebuf := wire.take rsize
  let wire := wire.drop rsize
  let ingressMAC := ingressMAC ++ framebuf
  let fmacseed := P.keccak ingressMAC
  if wire.length < 16 then throw .unexpectedEOF
  let (shouldMAC, ingressMAC) := updateMAC P ingressMAC rw.macKey fmacseed
  if shouldMAC ≠ wire.take 16 then throw .badFrameMAC
  let frame := xorFrom (keyStream P rw.aesKey) (rw.dec + 16) framebuf
  pure (frame.take fsize, wire.drop 16, { rw with dec := rw.dec + 16 + rsize, ingressMAC })

/-- `rlpxFrameRW.ReadMsg`: the message, what is left to read and the state
after. -/
def ReadMsg (rw : rlpxFrameRW) (wire : List UInt8) :
    Except FrameError (Msg × List UInt8 × rlpxFrameRW) := do
  let (content, wire, rw) ← readFrame P rw wire
  match C.decodeCode content with
  | none => throw .rlp
  | some (code, payload) =>
    if !rw.snappy then pure (⟨code, payload.length % 2 ^ 32, payload⟩, wire, rw)
    else
      match C.snappyDecodedLen payload with
      | none => throw .snappy
      | some size =>
        if size > maxUint24 then throw .errPlainMessageTooLarge
        match C.snappyDecode payload with
        | none => throw .snappy
        | some payload => pure (⟨code, size % 2 ^ 32, payload⟩, wire, rw)

/-- Messages written one after the other: the bytes on the connection and
the state after. -/
def writeMsgs (rw : rlpxFrameRW) : List Msg → List UInt8 × rlpxFrameRW
  | [] => ([], rw)
  | msg :: msgs =>
    let (_, written, rw) := WriteMsg P C rw msg
    let (rest, rw) := writeMsgs rw msgs
    (written ++ rest, rw)

/-- `n` messages read one after the other. -/
def readMsgs (rw : rlpxFrameRW) (wire : List UInt8) :
    Nat → Except FrameError (List Msg × List UInt8 × rlpxFrameRW)
  | 0 => pure ([], wire, rw)
  | n + 1 => do
    let (msg, wire, rw) ← ReadMsg P C rw wire
    let (msgs, wire, rw) ← readMsgs rw wire n
    pure (msg :: msgs, wire, rw)

end

/-! ## A frame written by one end is read back by the other -/

/-- Two ends of a connection in step: the same keys, the writer's stream
where the reader's is, the writer's egress MAC state equal to the reader's
ingress MAC state, and the same snappy setting. -/
structure Mirrors (a b : rlpxFrameRW) : Prop where
  aesKey : a.aesKey = b.aesKey
  macKey : a.macKey = b.macKey
  stream : a.enc = b.dec
  mac : a.egressMAC = b.ingressMAC
  snappy : a.snappy = b.snappy

/-- The ends `newRLPXFrameRW` builds from mirrored secrets are in step. -/
theorem mirrors_newRLPXFrameRW {sA sB : secrets} (hAES : sA.AES = sB.AES) (hMAC : sA.MAC = sB.MAC)
    (hmac : sA.EgressMAC = sB.IngressMAC) (snappy : Bool) :
    Mirrors { newRLPXFrameRW sA with snappy } { newRLPXFrameRW sB with snappy } :=
  ⟨hAES, hMAC, rfl, hmac, rfl⟩

section
variable (P : Primitives)

theorem length_updateMAC_fst (mac key seed : List UInt8) : (updateMAC P mac key seed).1.length = 16 := by
  simp [updateMAC, P.keccak_length]

/-- The reader accepts a frame whose two MACs are the ones its MAC state
computes and whose body has the length its header announces. -/
theorem readFrame_eq (rw : rlpxFrameRW) {header framebuf rest : List UInt8} (hh : header.length = 16)
    (hsize : framebuf.length =
      readInt24 (xorFrom (keyStream P rw.aesKey) rw.dec header) +
        padding (readInt24 (xorFrom (keyStream P rw.aesKey) rw.dec header))) :
    let hm := updateMAC P rw.ingressMAC rw.macKey header
    let fm := updateMAC P (hm.2 ++ framebuf) rw.macKey (P.keccak (hm.2 ++ framebuf))
    readFrame P rw (header ++ hm.1 ++ framebuf ++ fm.1 ++ rest) =
      .ok ((xorFrom (keyStream P rw.aesKey) (rw.dec + 16) framebuf).take
          (readInt24 (xorFrom (keyStream P rw.aesKey) rw.dec header)), rest,
        { rw with dec := rw.dec + 16 + framebuf.length, ingressMAC := fm.2 }) := by
  intro hm fm
  have hm16 : hm.1.length = 16 := length_updateMAC_fst P _ _ _
  have fm16 : fm.1.length = 16 := length_updateMAC_fst P _ _ _
  have h32 : (header ++ hm.1).length = 32 := by simp [hh, hm16]
  set fsize := readInt24 (xorFrom (keyStream P rw.aesKey) rw.dec header) with hfsize
  -- the reader cuts the connection where the writer put the pieces
  have htake : ∀ l, (header ++ (hm.1 ++ l)).take 32 = header ++ hm.1 := fun l => by
    rw [← List.append_assoc, List.take_left' h32]
  have hdrop : ∀ l, (header ++ (hm.1 ++ l)).drop 32 = l := fun l => by
    rw [← List.append_assoc, List.drop_left' h32]
  have hframe : (framebuf ++ (fm.1 ++ rest)).take (fsize + padding fsize) = framebuf :=
    List.take_left' hsize
  have hafter : (framebuf ++ (fm.1 ++ rest)).drop (fsize + padding fsize) = fm.1 ++ rest :=
    List.drop_left' hsize
  simp only [readFrame, List.append_assoc, htake, hdrop, List.take_left' hh, List.drop_left' hh,
    ← hfsize, hframe, hafter, List.take_left' fm16, List.drop_left' fm16]
  simp only [hm, fm, ne_eq, not_true_eq_false, if_false, List.length_append, hh, hm16, fm16,
    hsize, Nat.not_lt.mpr (Nat.le_add_right _ _)]
  rw [if_neg (by omega)]
  rfl

theorem readInt24_putInt24 {v : Nat} (hv : v < 2 ^ 24) (rest : List UInt8) :
    readInt24 (putInt24 v ++ rest) = v := by
  have h₀ : ((v >>> 16).toUInt8.toNat) = v / 2 ^ 16 % 256 := by
    simp [Nat.shiftRight_eq_div_pow]
  have h₁ : ((v >>> 8).toUInt8.toNat) = v / 2 ^ 8 % 256 := by
    simp [Nat.shiftRight_eq_div_pow]
  have h₂ : v.toUInt8.toNat = v % 256 := by simp
  simp only [readInt24, putInt24, List.cons_append, List.nil_append, List.getD_cons_succ,
    List.getD_cons_zero, h₀, h₁, h₂]
  have hlow : v % 256 ||| (v / 2 ^ 8 % 256) <<< 8 = 2 ^ 8 * (v / 2 ^ 8 % 256) + v % 256 := by
    rw [Nat.shiftLeft_eq, Nat.or_comm, Nat.mul_comm, Nat.two_pow_add_eq_or_of_lt (by omega)]
  rw [hlow, Nat.or_comm, Nat.shiftLeft_eq, Nat.mul_comm, ← Nat.two_pow_add_eq_or_of_lt (by omega)]
  omega

theorem readFrame_writeFrame {a b : rlpxFrameRW} (hab : Mirrors a b) {content : List UInt8}
    (hfit : content.length ≤ maxUint24) (rest : List UInt8) :
    let w := writeFrame P a content.length content
    readFrame P b (w.1 ++ rest) =
      .ok (content, rest, { b with dec := w.2.enc, ingressMAC := w.2.egressMAC }) := by
  intro w
  obtain ⟨hkey, hmac, henc, hegress, -⟩ := hab
  set ks := keyStream P a.aesKey
  set headbuf := putInt24 content.length ++ zeroHeader ++ List.replicate 10 0 with hheadbuf
  set header := xorFrom ks a.enc headbuf with hheader
  set frame := xorFrom ks (a.enc + 16) (content ++ List.replicate (padding content.length) 0)
    with hframe
  -- the reader decrypts the size the writer encrypted
  have hsize : readInt24 (xorFrom (keyStream P b.aesKey) b.dec header) = content.length := by
    rw [← hkey, ← henc, hheader, xorFrom_xorFrom, hheadbuf, List.append_assoc]
    exact readInt24_putInt24 (by unfold maxUint24 at hfit; omega) _
  have hlen : header.length = 16 := by simp [header, headbuf, zeroHeader, putInt24]
  have hflen : frame.length = content.length + padding content.length := by simp [frame]
  have hw : w.1 = header ++ (updateMAC P b.ingressMAC b.macKey header).1 ++ frame ++
      (updateMAC P ((updateMAC P b.ingressMAC b.macKey header).2 ++ frame) b.macKey
        (P.keccak ((updateMAC P b.ingressMAC b.macKey header).2 ++ frame))).1 := by
    rw [← hegress, ← hmac]
    rfl
  rw [hw, readFrame_eq P b hlen (by rw [hsize, hflen]), hsize, ← hkey, ← henc, hframe,
    xorFrom_xorFrom, List.take_left' rfl, ← hegress, ← hmac]
  rfl

variable (C : Codecs)

/-- A message whose frame fits the 24-bit size field, and, with snappy, whose
payload does too. -/
def Fits (snappy : Bool) (msg : Msg) : Prop :=
  (snappy = true → msg.Size ≤ maxUint24) ∧
    (C.encodeCode msg.Code).length +
      (if snappy then (C.snappyEncode msg.Payload).length else msg.Payload.length) ≤ maxUint24

/-- The frame content `WriteMsg` writes: the code, then the payload,
compressed with snappy. -/
def content (snappy : Bool) (msg : Msg) : List UInt8 :=
  C.encodeCode msg.Code ++ if snappy then C.snappyEncode msg.Payload else msg.Payload

theorem WriteMsg_of_fits {rw : rlpxFrameRW} {msg : Msg} (hsize : msg.Size = msg.Payload.length)
    (hfit : Fits C rw.snappy msg) :
    WriteMsg P C rw msg = (none, writeFrame P rw (content C rw.snappy msg).length
      (content C rw.snappy msg)) := by
  obtain ⟨hplain, hframe⟩ := hfit
  unfold maxUint24 at hplain hframe
  cases hs : rw.snappy
  · simp only [hs, Bool.false_eq_true, if_false] at hframe
    simp only [WriteMsg, hs, Bool.false_eq_true, if_false, content, List.length_append, ← hsize]
    rw [Nat.mod_eq_of_lt (by omega), if_neg (by unfold maxUint24; omega)]
  · simp only [hs, if_true] at hframe
    have hle := hplain hs
    simp only [WriteMsg, hs, if_true, content, List.length_append]
    rw [if_neg (by unfold maxUint24; omega), Nat.mod_eq_of_lt (a := List.length _) (by omega)]
    simp only
    rw [Nat.mod_eq_of_lt (by omega), if_neg (by unfold maxUint24; omega)]

theorem length_content_le {snappy : Bool} {msg : Msg} (hfit : Fits C snappy msg) :
    (content C snappy msg).length ≤ maxUint24 := by
  cases snappy <;> simpa [content, Fits] using hfit.2

/-- One message, written by one side and read by the mirrored other. -/
theorem ReadMsg_WriteMsg (hC : C.Lawful) {a b : rlpxFrameRW} (hab : Mirrors a b) {msg : Msg}
    (hsize : msg.Size = msg.Payload.length) (hfit : Fits C a.snappy msg) (rest : List UInt8) :
    let w := WriteMsg P C a msg
    w.1 = none ∧ ∃ b', ReadMsg P C b (w.2.1 ++ rest) = .ok (msg, rest, b') ∧ Mirrors w.2.2 b' := by
  intro w
  have hw : w = (none, writeFrame P a (content C a.snappy msg).length (content C a.snappy msg)) :=
    WriteMsg_of_fits P C hsize hfit
  have hlen : msg.Payload.length < 2 ^ 32 := by
    have := hfit.2
    unfold maxUint24 at this
    split_ifs at this with hs
    · have := hfit.1 hs
      unfold maxUint24 at this
      omega
    · omega
  refine ⟨by rw [hw], { b with
    dec := (writeFrame P a (content C a.snappy msg).length (content C a.snappy msg)).2.enc,
    ingressMAC := (writeFrame P a (content C a.snappy msg).length (content C a.snappy msg)).2.egressMAC },
    ?_, ?_⟩
  · rw [hw]
    simp only [ReadMsg]
    rw [readFrame_writeFrame P hab (length_content_le C hfit) rest]
    obtain ⟨code, size, payload⟩ := msg
    simp only at hsize hlen
    subst hsize
    simp only [bind, Except.bind, content, hC.decode_encode, ← hab.snappy]
    cases hs : a.snappy
    · simp only [Bool.false_eq_true, if_false, Bool.not_false, if_true]
      rw [Nat.mod_eq_of_lt hlen]
      rfl
    · have hplain := hfit.1 hs
      dsimp only [maxUint24] at hplain
      simp only [if_true, hC.decodedLen_encode, hC.decode_snappy, Bool.not_true,
        Bool.false_eq_true, if_false, maxUint24]
      rw [if_neg (by omega), Nat.mod_eq_of_lt hlen]
      rfl
  · rw [hw]
    exact ⟨hab.aesKey, hab.macKey, rfl, rfl, hab.snappy⟩

/-- `WriteMsg` either fails before writing, or writes one frame. -/
theorem WriteMsg_cases (rw : rlpxFrameRW) (msg : Msg) :
    (∃ e, WriteMsg P C rw msg = (some e, [], rw)) ∨
      ∃ fsize content, WriteMsg P C rw msg = (none, writeFrame P rw fsize content) := by
  unfold WriteMsg
  dsimp only
  split
  · next e _ => exact .inl ⟨e, rfl⟩
  · split_ifs
    · exact .inl ⟨_, rfl⟩
    · exact .inr ⟨_, _, rfl⟩

theorem WriteMsg_error {rw : rlpxFrameRW} {msg : Msg} {e : FrameError}
    (h : (WriteMsg P C rw msg).1 = some e) : (WriteMsg P C rw msg).2 = ([], rw) := by
  rcases WriteMsg_cases P C rw msg with ⟨e', he⟩ | ⟨fsize, content, hw⟩
  · rw [he]
  · rw [hw] at h
    cases h

theorem snappy_WriteMsg (rw : rlpxFrameRW) (msg : Msg) :
    (WriteMsg P C rw msg).2.2.snappy = rw.snappy := by
  rcases WriteMsg_cases P C rw msg with ⟨e, he⟩ | ⟨fsize, content, hw⟩
  · rw [he]
  · rw [hw]
    rfl

theorem readMsgs_writeMsgs (hC : C.Lawful) {a b : rlpxFrameRW} (hab : Mirrors a b) (msgs : List Msg)
    (hmsgs : ∀ m ∈ msgs, m.Size = m.Payload.length ∧ Fits C a.snappy m) (rest : List UInt8) :
    ∃ b', readMsgs P C b ((writeMsgs P C a msgs).1 ++ rest) msgs.length = .ok (msgs, rest, b') ∧
      Mirrors (writeMsgs P C a msgs).2 b' := by
  induction msgs generalizing a b with
  | nil => exact ⟨b, rfl, hab⟩
  | cons msg msgs ih =>
    obtain ⟨hsize, hfit⟩ := hmsgs msg List.mem_cons_self
    obtain ⟨-, b₁, hread, hab₁⟩ :=
      ReadMsg_WriteMsg P C hC hab hsize hfit ((writeMsgs P C (WriteMsg P C a msg).2.2 msgs).1 ++ rest)
    have hmsgs' : ∀ m ∈ msgs, m.Size = m.Payload.length ∧ Fits C (WriteMsg P C a msg).2.2.snappy m := by
      intro m hm
      rw [snappy_WriteMsg]
      exact hmsgs m (List.mem_cons_of_mem _ hm)
    obtain ⟨b₂, hread', hab₂⟩ := ih hab₁ hmsgs'
    refine ⟨b₂, ?_, hab₂⟩
    simp only [writeMsgs, readMsgs, List.length_cons, List.append_assoc]
    rw [hread]
    simp only [bind, Except.bind, hread']
    rfl


/-- For mirrored secrets and the same snappy setting, the messages one end
writes, each with a frame under `2^24` bytes and, with snappy, a payload
under `2^24` bytes, are the messages the other end reads, in order, with both
MACs of every frame checked; and a write that fails its size checks writes
nothing and leaves its end as it was. -/
theorem readMsgs_returns_written_messages (hC : C.Lawful) {sA sB : secrets}
    (hAES : sA.AES = sB.AES) (hMAC : sA.MAC = sB.MAC) (hmac : sA.EgressMAC = sB.IngressMAC)
    (snappy : Bool) (msgs : List Msg)
    (hmsgs : ∀ m ∈ msgs, m.Size = m.Payload.length ∧ Fits C snappy m) :
    (∃ b', readMsgs P C { newRLPXFrameRW sB with snappy }
        (writeMsgs P C { newRLPXFrameRW sA with snappy } msgs).1 msgs.length = .ok (msgs, [], b')) ∧
      ∀ rw msg e, (WriteMsg P C rw msg).1 = some e → (WriteMsg P C rw msg).2 = ([], rw) := by
  constructor
  · obtain ⟨b', hread, -⟩ := readMsgs_writeMsgs P C hC
      (mirrors_newRLPXFrameRW hAES hMAC hmac snappy) msgs hmsgs []
    rw [List.append_nil] at hread
    exact ⟨b', hread⟩
  · intro rw msg e h
    exact WriteMsg_error P C h

end

/-- Primitives of the right output lengths, for a run on concrete bytes. -/
def paddingPrimitives : Primitives where
  aes _ block := (block ++ List.replicate 16 0).take 16
  aes_length _ _ := by simp
  keccak data := (data ++ List.replicate 32 0).take 32
  keccak_length _ := by simp

/-- A unary code: ones, as many as the code, then a zero. -/
def unaryDecode : List UInt8 → Nat → Option (Nat × List UInt8)
  | [], _ => none
  | b :: rest, n => if b = 0 then some (n, rest) else unaryDecode rest (n + 1)

theorem unaryDecode_replicate (k n : Nat) (rest : List UInt8) :
    unaryDecode (List.replicate k 1 ++ 0 :: rest) n = some (n + k, rest) := by
  induction k generalizing n with
  | zero => simp [unaryDecode]
  | succ k ih =>
    rw [List.replicate_succ, List.cons_append, unaryDecode, if_neg (by decide), ih]
    congr 2
    omega

/-- Codecs with the unary code and without compression. -/
def unaryCodecs : Codecs where
  encodeCode code := List.replicate code.toNat 1 ++ [0]
  decodeCode l := (unaryDecode l 0).map fun (n, rest) => (UInt64.ofNat n, rest)
  snappyEncode p := p
  snappyDecodedLen p := some p.length
  snappyDecode p := some p

theorem unaryCodecs_lawful : unaryCodecs.Lawful where
  decode_encode code rest := by simp [unaryCodecs, unaryDecode_replicate]
  decodedLen_encode _ := rfl
  decode_snappy _ := rfl

theorem readMsgs_returns_written_messages_of_secret :
    let s : secrets := ⟨[], [1], [2], [3], [3]⟩
    (∃ b', readMsgs paddingPrimitives unaryCodecs { newRLPXFrameRW s with snappy := true }
        (writeMsgs paddingPrimitives unaryCodecs { newRLPXFrameRW s with snappy := true }
          [⟨1, 2, [5, 6]⟩, ⟨0, 0, []⟩]).1 2 = .ok ([⟨1, 2, [5, 6]⟩, ⟨0, 0, []⟩], [], b')) ∧
      ∀ rw msg e, (WriteMsg paddingPrimitives unaryCodecs rw msg).1 = some e →
        (WriteMsg paddingPrimitives unaryCodecs rw msg).2 = ([], rw) :=
  readMsgs_returns_written_messages paddingPrimitives unaryCodecs unaryCodecs_lawful rfl rfl rfl true
    [⟨1, 2, [5, 6]⟩, ⟨0, 0, []⟩] (by
      intro m hm
      simp only [List.mem_cons, List.not_mem_nil, or_false] at hm
      rcases hm with rfl | rfl <;> exact ⟨rfl, by unfold Fits; decide⟩)

end Btp.Rlpx
