import Mathlib

/-!
# Stream ciphers over a key stream

A stream cipher xors the data with a key stream, from the position the
stream has reached. Whatever the key stream, xoring twice from the same
position gives the data back, and writing two pieces one after the other is
writing their concatenation. The counter mode of a block cipher is one such
key stream: block `j` of the stream is the cipher applied to the counter
`iv + j`, taken big-endian over the block.
-/

namespace StreamCipher

/-- Xor `data` with the key stream `ks` from position `pos`. -/
def xorFrom (ks : Nat → UInt8) : Nat → List UInt8 → List UInt8
  | _, [] => []
  | pos, b :: bs => (b ^^^ ks pos) :: xorFrom ks (pos + 1) bs

section
variable {ks : Nat → UInt8}

@[simp] theorem xorFrom_nil (pos : Nat) : xorFrom ks pos [] = [] := rfl

@[simp] theorem length_xorFrom (pos : Nat) (data : List UInt8) :
    (xorFrom ks pos data).length = data.length := by
  induction data generalizing pos with
  | nil => rfl
  | cons b bs ih => simp [xorFrom, ih]

theorem xorFrom_append (pos : Nat) (a b : List UInt8) :
    xorFrom ks pos (a ++ b) = xorFrom ks pos a ++ xorFrom ks (pos + a.length) b := by
  induction a generalizing pos with
  | nil => rfl
  | cons x xs ih =>
    simp only [List.cons_append, xorFrom, ih, List.length_cons]
    rw [Nat.add_assoc, Nat.add_comm 1 xs.length]

/-- Decryption from the same position undoes encryption. -/
@[simp] theorem xorFrom_xorFrom (pos : Nat) (data : List UInt8) :
    xorFrom ks pos (xorFrom ks pos data) = data := by
  induction data generalizing pos with
  | nil => rfl
  | cons b bs ih => simp [xorFrom, ih]

end

/-- The `n`-byte big-endian encoding of `j`, modulo `256 ^ n`. -/
def counterBlock (n j : Nat) : List UInt8 :=
  (List.range n).map fun i => ((j / 256 ^ (n - 1 - i)) % 256).toUInt8

/-- The key stream of counter mode with a zero initial counter: byte `p` is
byte `p % n` of the cipher of counter `p / n`, for a block cipher of `n`
bytes. -/
def ctrKeyStream (block : List UInt8 → List UInt8) (n : Nat) (p : Nat) : UInt8 :=
  (block (counterBlock n (p / n))).getD (p % n) 0

end StreamCipher
