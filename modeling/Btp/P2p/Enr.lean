import Mathlib
import Btp.Common.Types
import Btp.Lib.Rlp
import Btp.Lib.ExceptRun

/-!
# Node records

`p2p/enr/enr.go`. A record holds a sequence number, a signature, its RLP
encoding and key/value pairs kept sorted by key. `Set` inserts or replaces a
pair at the place `sort.Search` finds and drops the signature, counting one
more sequence number if there was one; `Load` finds a key the same way and
decodes its value. `SetSig` checks a signature and encodes the record as the
list `[sig, seq, k1, v1, ...]` of at most `SizeLimit` bytes; `decodeRecord`
reads such a list back and refuses keys out of order, twice, or without a
value.

Keys are Go strings, so byte lists compared byte by byte. A value is an
entry's RLP encoding (`rlp.RawValue`): `Set` is given the key an entry
names and the value it encodes to, and `Load` the key and a decoder for the
entry's type. `sort.Search` over the monotone predicates used here is the
first index where the predicate holds. A call that panics returns `none`.
-/

namespace Btp.P2p.Enr

open Rlp

/-- `SizeLimit`: the largest encoded record, in bytes. -/
def SizeLimit : Nat := 300

/-- The errors of the package, and those of RLP and of an identity scheme it passes on. -/
inductive EnrError where
  | ErrInvalidSig
  | errNotSorted
  | errDuplicateKey
  | errIncompletePair
  | errTooBig
  | errEncodeUnsigned
  | errNotFound
  | rlp (err : Rlp.Error)
  | scheme (msg : String)
deriving DecidableEq, Repr

/-- `KeyError`: the error `Load` returns, with the key it looked for. -/
structure KeyError where
  Key : List UInt8
  Err : EnrError
deriving DecidableEq, Repr

/-- `pair`: a key and the encoding of its value. -/
structure pair where
  k : List UInt8
  v : Value
deriving Repr, Inhabited

/-- `Record`. `nil` slices are `none`. -/
structure Record where
  seq : UInt64
  signature : Option (List UInt8)
  raw : Option Value
  pairs : List pair
deriving Repr, Inhabited

/-- `IdentityScheme`: checks signatures and derives node addresses. -/
structure IdentityScheme where
  Verify : Record → List UInt8 → Except String Unit
  NodeAddr : Record → List UInt8

/-- `sort.Search(len(pairs), func(i int) bool { return pairs[i].k >= key })`. -/
def search (pairs : List pair) (key : List UInt8) : Nat :=
  pairs.findIdx fun p => decide (p.k ≥ key)

namespace Record

/-- `Record.SetSeq`. -/
def SetSeq (r : Record) (s : UInt64) : Record :=
  { r with signature := none, raw := none, seq := s }

/-- `Record.Load`: the value at `key`, decoded. -/
def Load {α : Type} (r : Record) (key : List UInt8) (decode : Value → Except Rlp.Error α) :
    Except KeyError α :=
  let i := search r.pairs key
  match r.pairs[i]? with
  | some p =>
    if p.k = key then (decode p.v).mapError fun err => ⟨key, .rlp err⟩
    else .error ⟨key, .errNotFound⟩
  | none => .error ⟨key, .errNotFound⟩

/-- `Record.invalidate`: a signed record gets its next sequence number. -/
def invalidate (r : Record) : Record :=
  { r with seq := if r.signature.isSome then r.seq + 1 else r.seq, signature := none, raw := none }

/-- `Record.Set`: replace the value at `key`, or insert the pair before the
first larger key, or append it. -/
def Set (r : Record) (key : List UInt8) (blob : Value) : Record :=
  let r := r.invalidate
  let i := search r.pairs key
  let pairs :=
    match r.pairs[i]? with
    | some p => if p.k = key then r.pairs.set i { p with v := blob } else r.pairs.insertIdx i ⟨key, blob⟩
    | none => r.pairs ++ [⟨key, blob⟩]
  { r with pairs := pairs }

/-- `Record.EncodeRLP`: the stored encoding of a signed record. -/
def EncodeRLP (r : Record) : Except EnrError (Option Value) :=
  match r.signature with
  | none => .error .errEncodeUnsigned
  | some _ => .ok r.raw

/-- `Record.AppendElements`: the sequence number and the pairs, as the values
they encode to. -/
def AppendElements (r : Record) (list : List Value) : List Value :=
  list ++ encodeUint r.seq :: r.pairs.flatMap fun p => [.str p.k, p.v]

/-- `Record.encode`: the list `[sig, seq, k1, v1, ...]`, if it is small enough. -/
def encode (r : Record) (sig : List UInt8) : Except EnrError Value :=
  let raw := Value.list (r.AppendElements [.str sig])
  if raw.size > SizeLimit then .error .errTooBig else .ok raw

/-- `Record.SetSig`: sign with a scheme that accepts the signature, or remove
the signature when both are `nil`; one `nil` without the other panics. -/
def SetSig (r : Record) (s : Option IdentityScheme) (sig : Option (List UInt8)) :
    Option (Except EnrError Record) :=
  match s, sig with
  | none, some _ => none
  | some _, none => none
  | some s, some sig => some do
    match s.Verify r sig with
    | .error e => throw (.scheme e)
    | .ok () => pure ()
    let raw ← r.encode sig
    pure { r with signature := some sig, raw := some raw }
  | none, none => some (.ok { r with signature := none, raw := none })

/-- `Record.IdentityScheme`: the `id` entry, or the empty name. -/
def IdentityScheme (r : Record) : List UInt8 :=
  match r.Load [0x69, 0x64] decodeBytes with
  | .ok id => id
  | .error _ => []

/-- `Record.VerifySignature`. -/
def VerifySignature (r : Record) (s : Enr.IdentityScheme) : Except String Unit :=
  s.Verify r (r.signature.getD [])

end Record

/-- `SchemeMap.Verify`: the scheme the record names checks the signature. -/
def SchemeMap.Verify (m : GoMap (List UInt8) IdentityScheme) (r : Record) (sig : List UInt8) :
    Except EnrError Unit :=
  match m.lookup r.IdentityScheme with
  | none => .error .ErrInvalidSig
  | some s => (s.Verify r sig).mapError .scheme

/-- The loop of `decodeRecord` over the pairs: each key must be a string with
a value after it, and after the first, larger than the key before. -/
def decodePairs (i : Nat) (prevkey : List UInt8) : List Value → Except EnrError (List pair)
  | [] => .ok []
  | [k] => do
    let _ ← (decodeBytes k).mapError .rlp
    throw .errIncompletePair
  | k :: v :: rest => do
    let key ← (decodeBytes k).mapError .rlp
    -- the two checks of every round after the first
    if i > 0 ∧ key = prevkey then throw .errDuplicateKey
    else if i > 0 ∧ key < prevkey then throw .errNotSorted
    else
      let pairs ← decodePairs (i + 1) key rest
      pure (⟨key, v⟩ :: pairs)

/-- `decodeRecord`: the record a value encodes, with the value itself as its
encoding. -/
def decodeRecord (raw : Value) : Except EnrError (Record × Value) :=
  if raw.size > SizeLimit then throw .errTooBig
  else match raw with
  | .str _ => throw (.rlp .ErrExpectedList)
  | .list [] => throw (.rlp .EOL)
  | .list [sig] => do
    let _ ← (decodeBytes sig).mapError .rlp
    throw (.rlp .EOL)
  | .list (sig :: seq :: kvs) => do
    let signature ← (decodeBytes sig).mapError .rlp
    let seq ← (decodeUint seq).mapError .rlp
    let pairs ← decodePairs 0 [] kvs
    pure (⟨seq, some signature, none, pairs⟩, raw)

/-- `Record.DecodeRLP`. -/
def DecodeRLP (raw : Value) : Except EnrError Record := do
  let (dec, raw) ← decodeRecord raw
  pure { dec with raw := some raw }

/-! ## Sorted pairs -/

/-- Pairs in strictly increasing key order, so with no key twice: what every
record keeps. -/
def Sorted (pairs : List pair) : Prop := pairs.Pairwise fun p q => p.k < q.k

/-- The value at the first pair with key `key`. -/
def lookup (pairs : List pair) (key : List UInt8) : Option Value :=
  (pairs.find? fun p => p.k = key).map pair.v

/-- Insertion into a sorted list of pairs: walk past the smaller keys, then
replace the value at `key` or put the pair in front. -/
def upsert (key : List UInt8) (blob : Value) : List pair → List pair
  | [] => [⟨key, blob⟩]
  | p :: t =>
    if p.k < key then p :: upsert key blob t
    else if p.k = key then ⟨key, blob⟩ :: t
    else ⟨key, blob⟩ :: p :: t

@[simp] theorem sorted_nil : Sorted [] := List.Pairwise.nil

@[simp] theorem sorted_cons {p : pair} {t : List pair} :
    Sorted (p :: t) ↔ (∀ q ∈ t, p.k < q.k) ∧ Sorted t := List.pairwise_cons

@[simp] theorem lookup_nil (key : List UInt8) : lookup [] key = none := rfl

theorem lookup_cons (p : pair) (t : List pair) (key : List UInt8) :
    lookup (p :: t) key = if p.k = key then some p.v else lookup t key := by
  by_cases h : p.k = key <;> simp [lookup, h]

/-- A key below every key of the list is not in it. -/
theorem lookup_eq_none_of_lt {t : List pair} {key : List UInt8} (h : ∀ q ∈ t, key < q.k) :
    lookup t key = none := by
  simp only [lookup, Option.map_eq_none_iff, List.find?_eq_none, decide_eq_true_eq]
  intro q hq hqk
  exact List.lt_irrefl key (hqk ▸ h q hq)

theorem search_cons (p : pair) (t : List pair) (key : List UInt8) :
    search (p :: t) key = if p.k < key then search t key + 1 else 0 := by
  by_cases h : p.k < key
  · -- `key ≤ p.k` is `¬ p.k < key` for lists
    have hle : ¬ key ≤ p.k := fun h' => h' h
    simp [search, List.findIdx_cons, h, hle]
  · simp [search, List.findIdx_cons, h, List.not_lt.1 h]

/-- Every pair of `upsert` is the new one or an old one. -/
theorem mem_upsert {key : List UInt8} {blob : Value} {ps : List pair} {x : pair}
    (hx : x ∈ upsert key blob ps) : x.k = key ∨ x ∈ ps := by
  induction ps with
  | nil =>
    simp only [upsert, List.mem_singleton] at hx
    exact .inl (hx ▸ rfl)
  | cons p t ih =>
    simp only [upsert] at hx
    split_ifs at hx with hlt heq
    · rcases List.mem_cons.1 hx with rfl | hx
      · exact .inr List.mem_cons_self
      · exact (ih hx).imp_right (List.mem_cons_of_mem _)
    · rcases List.mem_cons.1 hx with rfl | hx
      · exact .inl rfl
      · exact .inr (List.mem_cons_of_mem _ hx)
    · rcases List.mem_cons.1 hx with rfl | hx
      · exact .inl rfl
      · exact .inr hx

/-- `upsert` keeps the pairs sorted. -/
theorem sorted_upsert {key : List UInt8} {blob : Value} {ps : List pair} (hs : Sorted ps) :
    Sorted (upsert key blob ps) := by
  induction ps with
  | nil => simp [upsert]
  | cons p t ih =>
    rw [sorted_cons] at hs
    simp only [upsert]
    split_ifs with hlt heq
    · -- `p` stays in front of the rest, all of whose keys are above its own
      refine sorted_cons.2 ⟨fun q hq => ?_, ih hs.2⟩
      rcases mem_upsert hq with hk | hq
      · exact hk ▸ hlt
      · exact hs.1 q hq
    · exact sorted_cons.2 ⟨fun q hq => heq ▸ hs.1 q hq, hs.2⟩
    · -- `key` is below `p.k`, hence below every key after it
      have hkp : key < p.k := by
        rcases Std.lt_trichotomy p.k key with h | h | h
        · exact absurd h hlt
        · exact absurd h heq
        · exact h
      refine sorted_cons.2 ⟨fun q hq => ?_, sorted_cons.2 hs⟩
      rcases List.mem_cons.1 hq with rfl | hq
      · exact hkp
      · exact List.lt_trans hkp (hs.1 q hq)

/-- After `upsert`, `key` has the new value and every other key its old one. -/
theorem lookup_upsert (key : List UInt8) (blob : Value) (ps : List pair) (key' : List UInt8) :
    lookup (upsert key blob ps) key' = if key' = key then some blob else lookup ps key' := by
  induction ps with
  | nil =>
    by_cases h : key' = key
    · simp [upsert, lookup_cons, h]
    · simp [upsert, lookup_cons, h, Ne.symm h]
  | cons p t ih =>
    by_cases hlt : p.k < key
    · -- `p` is kept, and it is not the pair at `key`
      have hpk : p.k ≠ key := fun h => List.lt_irrefl key (h ▸ hlt)
      rw [upsert, if_pos hlt, lookup_cons, ih, lookup_cons]
      by_cases h : key' = key
      · subst h
        simp [hpk]
      · simp [h]
    · by_cases heq : p.k = key
      · rw [upsert, if_neg hlt, if_pos heq, lookup_cons, lookup_cons, heq]
        by_cases h : key' = key
        · simp [h]
        · simp [h, Ne.symm h]
      · rw [upsert, if_neg hlt, if_neg heq, lookup_cons]
        by_cases h : key' = key
        · simp [h]
        · simp [h, Ne.symm h]

/-! ## Set and Load -/

namespace Record

variable (r : Record) (key : List UInt8) (blob : Value)

/-- The pairs after `Set` are those of `upsert`: `sort.Search` stops at the
first key not below `key`, which is where `upsert` stops walking. -/
theorem Set_pairs : (r.Set key blob).pairs = upsert key blob r.pairs := by
  simp only [Set, invalidate]
  generalize r.pairs = ps
  induction ps with
  | nil => simp [search, upsert]
  | cons p t ih =>
    rw [search_cons, upsert]
    by_cases hlt : p.k < key
    · -- the search passes `p`, and so does `upsert`
      simp only [if_pos hlt, List.getElem?_cons_succ, List.set_cons_succ, List.insertIdx_succ_cons,
        List.cons_append]
      rw [← ih]
      cases t[search t key]? with
      | none => rfl
      | some q => by_cases hq : q.k = key <;> simp [hq]
    · -- the search stops at `p`, where `upsert` replaces or inserts
      simp only [if_neg hlt, List.getElem?_cons_zero, List.set_cons_zero, List.insertIdx_zero]
      by_cases heq : p.k = key <;> simp [heq]

@[simp] theorem Set_seq : (r.Set key blob).seq = if r.signature.isSome then r.seq + 1 else r.seq := rfl

@[simp] theorem Set_signature : (r.Set key blob).signature = none := rfl

@[simp] theorem Set_raw : (r.Set key blob).raw = none := rfl

/-- On sorted pairs `sort.Search` finds a key where it is: the pair it stops
at has the key exactly when the key is there at all. -/
theorem search_lookup {ps : List pair} (hs : Sorted ps) (key : List UInt8) :
    (match ps[search ps key]? with
      | some p => if p.k = key then some p.v else none
      | none => none) = lookup ps key := by
  induction ps with
  | nil => simp [search]
  | cons p t ih =>
    rw [sorted_cons] at hs
    rw [search_cons, lookup_cons]
    by_cases hlt : p.k < key
    · have hpk : p.k ≠ key := fun h => List.lt_irrefl key (h ▸ hlt)
      simp only [if_pos hlt, List.getElem?_cons_succ, if_neg hpk]
      exact ih hs.2
    · -- the search stops at `p`: either it has the key, or the key is below all of the list
      simp only [if_neg hlt, List.getElem?_cons_zero]
      by_cases heq : p.k = key
      · simp [heq]
      · have hkp : key < p.k := by
          rcases Std.lt_trichotomy p.k key with h | h | h
          · exact absurd h hlt
          · exact absurd h heq
          · exact h
        simp only [if_neg heq]
        exact (lookup_eq_none_of_lt fun q hq => List.lt_trans hkp (hs.1 q hq)).symm

/-- `Load` on sorted pairs decodes the value at the key, if there is one. -/
theorem Load_eq {α : Type} {r : Record} (hs : Sorted r.pairs) (key : List UInt8)
    (decode : Value → Except Rlp.Error α) :
    r.Load key decode = match lookup r.pairs key with
      | some v => (decode v).mapError fun err => ⟨key, .rlp err⟩
      | none => .error ⟨key, .errNotFound⟩ := by
  rw [← search_lookup hs key, Load]
  cases r.pairs[search r.pairs key]? with
  | none => rfl
  | some p => by_cases h : p.k = key <;> simp [h]

end Record

/-! ## Runs of Set -/

section Runs

variable (r : Record)

/-- A run of sets keeps the pairs sorted. -/
theorem sorted_foldl_Set (hs : Sorted r.pairs) (es : List pair) :
    Sorted (es.foldl (fun r e => r.Set e.k e.v) r).pairs := by
  induction es using List.reverseRecOn with
  | nil => exact hs
  | append_singleton es e ih =>
    rw [List.foldl_append, List.foldl_cons, List.foldl_nil, Record.Set_pairs]
    exact sorted_upsert ih

/-- After a run of sets a key has the value of its last set, or else the
value it had before. -/
theorem lookup_foldl_Set (es : List pair) (key : List UInt8) :
    lookup (es.foldl (fun r e => r.Set e.k e.v) r).pairs key =
      ((es.filter fun e => e.k = key).getLast?.map pair.v).or (lookup r.pairs key) := by
  induction es using List.reverseRecOn with
  | nil => simp
  | append_singleton es e ih =>
    rw [List.foldl_append, List.foldl_cons, List.foldl_nil, Record.Set_pairs, lookup_upsert,
      List.filter_append]
    by_cases h : key = e.k
    · simp [h]
    · simp [h, Ne.symm h, ih]

/-- Only the first set of a run can count a sequence number: it drops the
signature, and the later ones find none. -/
theorem seq_foldl_Set (es : List pair) :
    (es.foldl (fun r e => r.Set e.k e.v) r).seq =
      if es ≠ [] ∧ r.signature.isSome then r.seq + 1 else r.seq := by
  induction es generalizing r with
  | nil => simp
  | cons e es ih =>
    rw [List.foldl_cons, ih, Record.Set_signature, Record.Set_seq]
    simp

theorem signature_foldl_Set (es : List pair) :
    (es.foldl (fun r e => r.Set e.k e.v) r).signature = if es = [] then r.signature else none := by
  induction es generalizing r with
  | nil => simp
  | cons e es ih =>
    rw [List.foldl_cons, ih, Record.Set_signature]
    simp

end Runs

/-! ## Encoding and decoding -/

/-- What `encode` returns is the list `[sig, seq, k1, v1, ...]`, and it fits
the limit. -/
theorem encode_eq_ok {r : Record} {sig : List UInt8} {raw : Value} (h : r.encode sig = .ok raw) :
    raw = .list (.str sig :: encodeUint r.seq :: r.pairs.flatMap fun p => [.str p.k, p.v]) ∧
      raw.size ≤ SizeLimit := by
  dsimp only [Record.encode] at h
  split at h
  · cases h
  · rename_i hbig
    cases h
    exact ⟨rfl, not_lt.1 hbig⟩

/-- One round of the loop over a key and its value: it goes on iff the key
lies above the key before, or it is the first round. -/
theorem decodePairs_cons_eq_ok (i : Nat) (prevkey : List UInt8) (p : pair) (rest : List Value)
    (d : List pair) :
    decodePairs i prevkey (.str p.k :: p.v :: rest) = .ok d ↔
      (0 < i → prevkey < p.k) ∧ ∃ ps, decodePairs (i + 1) p.k rest = .ok ps ∧ d = p :: ps := by
  simp only [decodePairs, decodeBytes_str, Except.mapError, ExceptRun.bind_eq_ok, Except.ok.injEq,
    exists_eq_left']
  -- past the checks, the loop goes on with the key as the one before
  have hcont : (do let pairs ← decodePairs (i + 1) p.k rest; pure ((⟨p.k, p.v⟩ : pair) :: pairs) :
      Except EnrError (List pair)) = .ok d ↔
      ∃ ps, decodePairs (i + 1) p.k rest = .ok ps ∧ d = p :: ps := by
    simp only [ExceptRun.bind_eq_ok, ExceptRun.pure_eq_ok]
    constructor
    · rintro ⟨ps, hps, rfl⟩
      exact ⟨ps, hps, rfl⟩
    · rintro ⟨ps, hps, rfl⟩
      exact ⟨ps, hps, rfl⟩
  by_cases hi : 0 < i
  · rcases Std.lt_trichotomy p.k prevkey with h | h | h
    · -- out of order
      have hne : p.k ≠ prevkey := fun he => List.lt_irrefl prevkey (he ▸ h)
      rw [if_neg fun h' => hne h'.2, if_pos ⟨hi, h⟩]
      simp only [ExceptRun.throw_ne_ok, false_iff, not_and]
      exact fun h' => absurd (h' hi) (List.lt_asymm h)
    · -- the same key twice
      rw [if_pos ⟨hi, h⟩]
      simp only [ExceptRun.throw_ne_ok, false_iff, not_and]
      exact fun h' => absurd (h' hi) (h ▸ List.lt_irrefl p.k)
    · have hne : p.k ≠ prevkey := fun he => List.lt_irrefl prevkey (he ▸ h)
      rw [if_neg fun h' => hne h'.2, if_neg fun h' => List.lt_asymm h h'.2, hcont]
      exact ⟨fun hc => ⟨fun _ => h, hc⟩, fun hc => hc.2⟩
  · rw [if_neg fun h' => hi h'.1, if_neg fun h' => hi h'.1, hcont]
    exact ⟨fun hc => ⟨fun h' => absurd h' hi, hc⟩, fun hc => hc.2⟩

/-- The loop over `[k1, v1, ..., kn, vn]`, maybe followed by a key without a
value: it returns the pairs iff there is no such key, the keys increase, and
after the first round they lie above the key before. -/
theorem decodePairs_flat_eq_ok (i : Nat) (prevkey : List UInt8) (kvs : List pair)
    (dangling : Option (List UInt8)) (d : List pair) :
    decodePairs i prevkey ((kvs.flatMap fun p => [.str p.k, p.v]) ++ dangling.toList.map .str) = .ok d ↔
      d = kvs ∧ dangling = none ∧ Sorted kvs ∧ (0 < i → ∀ p ∈ kvs, prevkey < p.k) := by
  induction kvs generalizing i prevkey d with
  | nil =>
    cases dangling with
    | none => simp [decodePairs, eq_comm]
    | some k => simp [decodePairs]
  | cons p kvs ih =>
    simp only [List.flatMap_cons, List.cons_append, List.nil_append]
    rw [decodePairs_cons_eq_ok]
    simp only [ih, sorted_cons]
    constructor
    · rintro ⟨hprev, _, ⟨rfl, hnone, hs, hlt⟩, rfl⟩
      refine ⟨rfl, hnone, ⟨hlt (Nat.succ_pos i), hs⟩, fun hi q hq => ?_⟩
      rcases List.mem_cons.1 hq with rfl | hq
      · exact hprev hi
      · exact List.lt_trans (hprev hi) (hlt (Nat.succ_pos i) q hq)
    · rintro ⟨rfl, hnone, ⟨hlt, hs⟩, hprev⟩
      exact ⟨fun hi => hprev hi p List.mem_cons_self, kvs, ⟨rfl, hnone, hs, fun _ => hlt⟩, rfl⟩

/-- Whatever the loop returns is sorted, and lies above the key before. -/
theorem decodePairs_sorted {i : Nat} {prevkey : List UInt8} {vs : List Value} {d : List pair}
    (h : decodePairs i prevkey vs = .ok d) : Sorted d ∧ (0 < i → ∀ p ∈ d, prevkey < p.k) := by
  induction i, prevkey, vs using decodePairs.induct generalizing d with
  | case1 i prevkey =>
    simp only [decodePairs, Except.ok.injEq] at h
    subst h
    simp
  | case2 i prevkey k =>
    cases k <;> simp [decodePairs, decodeBytes, Except.mapError] at h
  | case3 i prevkey k v rest ih =>
    cases k with
    | list l => simp [decodePairs, decodeBytes, Except.mapError] at h
    | str key =>
      obtain ⟨hprev, ps, hps, rfl⟩ := (decodePairs_cons_eq_ok i prevkey ⟨key, v⟩ rest d).1 h
      obtain ⟨hs, hlt⟩ := ih key hps
      refine ⟨sorted_cons.2 ⟨hlt (Nat.succ_pos i), hs⟩, fun hi q hq => ?_⟩
      rcases List.mem_cons.1 hq with rfl | hq
      · exact hprev hi
      · exact List.lt_trans (hprev hi) (hlt (Nat.succ_pos i) q hq)

/-- Every record `decodeRecord` accepts has sorted pairs. -/
theorem decodeRecord_sorted {raw : Value} {d : Record × Value} (h : decodeRecord raw = .ok d) :
    Sorted d.1.pairs := by
  unfold decodeRecord at h
  split at h
  · cases h
  · split at h
    · cases h
    · cases h
    · simp only [ExceptRun.bind_eq_ok] at h
      obtain ⟨_, -, h⟩ := h
      exact absurd h ExceptRun.throw_ne_ok
    · simp only [ExceptRun.bind_eq_ok, ExceptRun.pure_eq_ok] at h
      obtain ⟨_, -, _, -, ps, hps, rfl⟩ := h
      exact (decodePairs_sorted hps).1

/-- `decodeRecord` on a list `[sig, seq, k1, v1, ...]` within the limit,
maybe with a last key without value: it returns the record iff there is no
such key and the keys increase. -/
theorem decodeRecord_eq_ok (sig : List UInt8) (seq : UInt64) (kvs : List pair)
    (dangling : Option (List UInt8)) (raw : Value)
    (hraw : raw = .list (.str sig :: encodeUint seq ::
      ((kvs.flatMap fun p => [.str p.k, p.v]) ++ dangling.toList.map .str)))
    (hsize : raw.size ≤ SizeLimit) (d : Record × Value) :
    decodeRecord raw = .ok d ↔ d = (⟨seq, some sig, none, kvs⟩, raw) ∧ dangling = none ∧ Sorted kvs := by
  subst hraw
  unfold decodeRecord
  rw [if_neg (not_lt.2 hsize)]
  simp only [decodeBytes_str, decodeUint_encodeUint, Except.mapError, ExceptRun.bind_eq_ok,
    ExceptRun.pure_eq_ok, Except.ok.injEq, exists_eq_left', decodePairs_flat_eq_ok]
  constructor
  · rintro ⟨_, ⟨rfl, hnone, hs, -⟩, rfl⟩
    exact ⟨rfl, hnone, hs⟩
  · rintro ⟨rfl, hnone, hs⟩
    exact ⟨kvs, ⟨rfl, hnone, hs, fun h => absurd h (Nat.lt_irrefl 0)⟩, rfl⟩

/-- Keys out of order are refused. -/
example : (decodeRecord (.list [.str [], .str [1], .str [0x62], .str [], .str [0x61], .str []])).toBool = false := by
  decide

/-- A successful `SetSig` with a scheme and a signature: the scheme accepted
the signature and the record stores its encoding. -/
theorem SetSig_eq_ok {r r' : Record} {s : IdentityScheme} {sig : List UInt8}
    (h : r.SetSig (some s) (some sig) = some (.ok r')) :
    s.Verify r sig = .ok () ∧
      ∃ raw, r.encode sig = .ok raw ∧ r' = { r with signature := some sig, raw := some raw } := by
  simp only [Record.SetSig, Option.some.injEq] at h
  cases hv : s.Verify r sig with
  | error e =>
    rw [hv] at h
    exact absurd h ExceptRun.throw_ne_ok
  | ok u =>
    simp only [hv, ExceptRun.bind_eq_ok, ExceptRun.pure_eq_ok] at h
    obtain ⟨raw, hraw, rfl⟩ := h
    exact ⟨rfl, raw, hraw, rfl⟩

/-- A record signed by `SetSig` encodes to a value that `DecodeRLP` reads back
to the same record. -/
theorem DecodeRLP_of_SetSig {r r' : Record} {s : IdentityScheme} {sig : List UInt8}
    (hs : Sorted r.pairs) (h : r.SetSig (some s) (some sig) = some (.ok r')) :
    ∃ raw, r'.EncodeRLP = .ok (some raw) ∧ DecodeRLP raw = .ok r' := by
  obtain ⟨-, raw, henc, rfl⟩ := SetSig_eq_ok h
  obtain ⟨hraw, hsize⟩ := encode_eq_ok henc
  refine ⟨raw, rfl, ?_⟩
  have hdec := (decodeRecord_eq_ok sig r.seq r.pairs none raw (by simpa using hraw) hsize _).2
    ⟨rfl, rfl, hs⟩
  simp [DecodeRLP, hdec]

/-! ## Records under Set, SetSig and decoding -/

/-- From a record with sorted pairs, a run of sets keeps them sorted, `Load`
decodes the value of the last set of a key (or what was there before), and
the sequence number goes up once, at the first set after signing. A record
signed by `SetSig` encodes to a value that `DecodeRLP` reads back to the same
record. A list `[sig, seq, k1, v1, ...]` within the limit, maybe with a last
key without value, is accepted by `decodeRecord` iff every key has a value
and the keys increase, and then it gives those pairs. -/
theorem node_record_set_load_codec (r : Record) (hs : Sorted r.pairs) :
    (∀ es : List pair,
      let r' : Record := es.foldl (fun r e => r.Set e.k e.v) r
      Sorted r'.pairs ∧
      (∀ {α : Type} (key : List UInt8) (decode : Value → Except Rlp.Error α),
        r'.Load key decode =
          match (es.filter fun e => e.k = key).getLast? with
          | some e => (decode e.v).mapError fun err => ⟨key, .rlp err⟩
          | none => r.Load key decode) ∧
      r'.seq = (if es ≠ [] ∧ r.signature.isSome then r.seq + 1 else r.seq) ∧
      (es ≠ [] → r'.signature = none)) ∧
    (∀ (s : IdentityScheme) (sig : List UInt8) (r' : Record),
      r.SetSig (some s) (some sig) = some (.ok r') →
      ∃ raw, r'.EncodeRLP = .ok (some raw) ∧ DecodeRLP raw = .ok r' ∧
        r'.seq = r.seq ∧ r'.signature = some sig ∧ r'.pairs = r.pairs) ∧
    (∀ (sig : List UInt8) (seq : UInt64) (kvs : List pair) (dangling : Option (List UInt8)),
      let raw : Value := .list (.str sig :: encodeUint seq ::
        ((kvs.flatMap fun p => [.str p.k, p.v]) ++ dangling.toList.map .str))
      raw.size ≤ SizeLimit →
      ((∃ d, decodeRecord raw = .ok d) ↔ dangling = none ∧ Sorted kvs) ∧
      (dangling = none → Sorted kvs → decodeRecord raw = .ok (⟨seq, some sig, none, kvs⟩, raw))) := by
  refine ⟨fun es => ?_, fun s sig r' h => ?_, fun sig seq kvs dangling => ?_⟩
  · -- a run of sets
    refine ⟨sorted_foldl_Set r hs es, fun {α} key decode => ?_, seq_foldl_Set r es, fun hne => ?_⟩
    · rw [Record.Load_eq (sorted_foldl_Set r hs es), lookup_foldl_Set, Record.Load_eq hs]
      cases (es.filter fun e => e.k = key).getLast? with
      | none => rfl
      | some e => rfl
    · rw [signature_foldl_Set, if_neg hne]
  · -- signing, then decoding the encoding
    obtain ⟨raw, henc, hdec⟩ := DecodeRLP_of_SetSig hs h
    obtain ⟨-, raw', -, rfl⟩ := SetSig_eq_ok h
    exact ⟨raw, henc, hdec, rfl, rfl, rfl⟩
  · -- decoding a list of the record's shape
    intro raw hsize
    have hdec := decodeRecord_eq_ok sig seq kvs dangling raw rfl hsize
    refine ⟨⟨fun ⟨d, hd⟩ => ?_, fun ⟨hnone, hkvs⟩ => ⟨_, (hdec _).2 ⟨rfl, hnone, hkvs⟩⟩⟩,
      fun hnone hkvs => (hdec _).2 ⟨rfl, hnone, hkvs⟩⟩
    obtain ⟨-, hnone, hkvs⟩ := (hdec d).1 hd
    exact ⟨hnone, hkvs⟩

/-- A record signed at sequence number 3, with the keys `id` and `ip`. -/
def signedRecord : Record :=
  ⟨3, some [1, 2], none, [⟨[0x69, 0x64], .str [0x76, 0x34]⟩, ⟨[0x69, 0x70], .str [127, 0, 0, 1]⟩]⟩

/-- Setting `udp` and then a new `ip` on `signedRecord` keeps the keys in
order, makes `Load` read the new `ip`, counts one change in the sequence
number and drops the signature. -/
theorem node_record_set_load_codec_on_signed_record :
    Sorted signedRecord.pairs ∧
      let r' := ([⟨[0x75, 0x64, 0x70], .str [0x76, 0x5f]⟩, ⟨[0x69, 0x70], .str [10, 0, 0, 1]⟩] :
        List pair).foldl (fun (r : Record) e => r.Set e.k e.v) signedRecord
      Sorted r'.pairs ∧
        r'.Load [0x69, 0x70] (fun v => (.ok v : Except Rlp.Error Value)) = .ok (.str [10, 0, 0, 1]) ∧
        r'.seq = 4 ∧ r'.signature = none := by
  have hs : Sorted signedRecord.pairs := by
    unfold Sorted signedRecord
    decide
  obtain ⟨hsorted, hload, hseq, hsig⟩ := (node_record_set_load_codec signedRecord hs).1
    [⟨[0x75, 0x64, 0x70], .str [0x76, 0x5f]⟩, ⟨[0x69, 0x70], .str [10, 0, 0, 1]⟩]
  refine ⟨hs, hsorted, ?_, ?_, hsig (by simp)⟩
  · rw [hload]
    rfl
  · rw [hseq]
    rfl

end Btp.P2p.Enr
