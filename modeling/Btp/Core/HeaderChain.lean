import Mathlib
import Btp.Common.Types
import Btp.Lib.Ancestry

/-!
# The header chain's canonical index

`HeaderChain` of `core/headerchain.go`: the database's headers, total
difficulties and canonical hashes by number, and the current head.
`WriteHeader` stores a header whose parent has a total difficulty and, when
its own total difficulty beats the head's (or ties and the coin says so),
deletes the canonical hashes above it, rewrites the stale ones below it by
walking back through its ancestors, and makes it the head. `GetAncestor`
walks back from a header, jumping along the canonical index as soon as it
meets it.

The header and td caches are keyed by hash alone and hold every header
written here, so a lookup goes by hash and the number it is given is not
read. Block numbers are naturals: in a chain whose numbers follow their
parents' the `uint64` arithmetic of the source neither wraps below the
genesis nor above. The coin of `mrand.Float64() < 0.5` is a parameter; the
head header hash, the gauges and the number cache are left out.

The parent check goes through the td cache, so a header whose number does
not follow its parent's is written, and the canonical index is then left
with a gap that `GetAncestor` jumps into (`WriteHeader_leaves_gap`). For
headers one above their parent the index is the head's ancestry
(`header_chain_canonical_index`).
-/

namespace Btp.Core

open Ancestry

/-- `types.Header`, by the fields the header chain reads; `Hash` is
`header.Hash()`. -/
structure Header where
  ParentHash : Hash
  Difficulty : Int
  Number : Nat
  Hash : Hash
  deriving DecidableEq, Repr

/-- `WriteStatus`. -/
inductive WriteStatus
  | NonStatTy
  | CanonStatTy
  | SideStatTy
  deriving DecidableEq, Repr

/-- The error of `WriteHeader`, which comes with `NonStatTy`. -/
inductive WriteError
  /-- `consensus.ErrUnknownAncestor`. -/
  | ErrUnknownAncestor
  deriving DecidableEq, Repr

/-- `HeaderChain`, by what `WriteHeader` and `GetAncestor` read and write. -/
structure HeaderChain where
  headers : GoMap Hash Header
  tds : GoMap Hash Int
  canonical : GoMap Nat Hash
  currentHeader : Header
  currentHeaderHash : Hash

/-- The chain of a genesis header, as `SetupGenesisBlock` and
`NewHeaderChain` leave it: the genesis stored with its difficulty as total
difficulty, canonical at number 0 and the head. -/
def newHeaderChain (genesis : Header) : HeaderChain where
  headers := (∅ : GoMap Hash Header).insert genesis.Hash genesis
  tds := (∅ : GoMap Hash Int).insert genesis.Hash genesis.Difficulty
  canonical := (∅ : GoMap Nat Hash).insert 0 genesis.Hash
  currentHeader := genesis
  currentHeaderHash := genesis.Hash

namespace HeaderChain

/-- `rawdb.ReadCanonicalHash`: the empty hash where there is none. -/
def ReadCanonicalHash (hc : HeaderChain) (number : Nat) : Hash := (hc.canonical.lookup number).getD 0

/-- `GetTd`, through the td cache. -/
def GetTd (hc : HeaderChain) (hash : Hash) (_number : Nat) : Option Int := hc.tds.lookup hash

/-- `Gbtpeader`, through the header cache. -/
def Gbtpeader (hc : HeaderChain) (hash : Hash) (_number : Nat) : Option Header :=
  hc.headers.lookup hash

/-- The loop deleting the canonical hashes above a new head: from `i` up to
the first number without one. Each round deletes one hash, so the fuel
`WriteHeader` gives, one more than the number of hashes, is never used up. -/
def deleteLoop : Nat → GoMap Nat Hash → Nat → GoMap Nat Hash
  | 0, canonical, _ => canonical
  | fuel + 1, canonical, i =>
    if (canonical.lookup i).getD 0 = 0 then canonical
    else deleteLoop fuel (canonical.erase i) (i + 1)

/-- The loop overwriting stale canonical hashes, from the new head's parent
down to the first number whose canonical hash is the ancestor's already;
`none` for the dereference of a missing header, and for running out of the
fuel `WriteHeader` gives, one round per number below the new head. -/
def reorgLoop (headers : GoMap Hash Header) :
    Nat → GoMap Nat Hash → Hash → Nat → Option Header → Option (GoMap Nat Hash)
  | 0, _, _, _, _ => none
  | fuel + 1, canonical, headHash, headNumber, headHeader =>
    if (canonical.lookup headNumber).getD 0 ≠ headHash then
      match headHeader with
      | none => none
      | some h =>
        reorgLoop headers fuel (canonical.insert headNumber headHash) h.ParentHash (h.Number - 1)
          (headers.lookup h.ParentHash)
    else some canonical

/-- `WriteHeader`, with `coin` for `mrand.Float64() < 0.5`; `none` where the
source panics. -/
def WriteHeader (coin : Bool) (hc : HeaderChain) (header : Header) :
    Option (Except WriteError (WriteStatus × HeaderChain)) :=
  let hash := header.Hash
  let number := header.Number
  match hc.GetTd header.ParentHash (number - 1) with
  | none => some (.error .ErrUnknownAncestor)
  | some ptd =>
    match hc.GetTd hc.currentHeaderHash hc.currentHeader.Number with
    -- comparing with a missing td dereferences nil
    | none => none
    | some localTd =>
      let externTd := header.Difficulty + ptd
      let hc := { hc with
        tds := hc.tds.insert hash externTd
        headers := hc.headers.insert hash header }
      if localTd < externTd ∨ (externTd = localTd ∧ coin = true) then
        let canonical := deleteLoop (hc.canonical.entries.length + 1) hc.canonical (number + 1)
        match reorgLoop hc.headers (number + 1) canonical header.ParentHash (number - 1)
            (hc.Gbtpeader header.ParentHash (number - 1)) with
        | none => none
        | some canonical =>
          some (.ok (.CanonStatTy, { hc with
            canonical := canonical.insert number hash
            currentHeader := header
            currentHeaderHash := hash }))
      else some (.ok (.SideStatTy, hc))

/-- The loop of `GetAncestor`, with the budget `maxNonCanonical` points to;
it returns the hash, the number and what is left of the budget. -/
def ancestorLoop (hc : HeaderChain) : Nat → Hash → Nat → Nat → Hash × Nat × Nat
  | 0, hash, number, budget => (hash, number, budget)
  | ancestor + 1, hash, number, budget =>
    if hc.ReadCanonicalHash number = hash then
      -- on the canonical index: jump there
      (hc.ReadCanonicalHash (number - (ancestor + 1)), number - (ancestor + 1), budget)
    else if budget = 0 then (0, 0, budget)
    else
      match hc.Gbtpeader hash number with
      | none => (0, 0, budget - 1)
      | some header => ancestorLoop hc ancestor header.ParentHash (number - 1) (budget - 1)

/-- `GetAncestor`: the `ancestor`-th ancestor of a header, and what is left of
the budget. -/
def GetAncestor (hc : HeaderChain) (hash : Hash) (number ancestor maxNonCanonical : Nat) :
    Hash × Nat × Nat :=
  if ancestor > number then (0, 0, maxNonCanonical)
  else if ancestor = 1 then
    -- in this case it is cheaper to just read the header
    match hc.Gbtpeader hash number with
    | some header => (header.ParentHash, number - 1, maxNonCanonical)
    | none => (0, 0, maxNonCanonical)
  else hc.ancestorLoop ancestor hash number maxNonCanonical

/-- The parent link of the stored headers. -/
def parentOf (headers : GoMap Hash Header) (hash : Hash) : Option Hash :=
  (headers.lookup hash).map (·.ParentHash)

/-- **A header above a gap.** A header whose number is four above its
parent's is written, as the td cache finds its parent by hash; the head's
canonical index then misses the numbers between, and `GetAncestor` from the
head returns the empty hash at number 3 for its second ancestor, which is
the genesis. -/
theorem WriteHeader_leaves_gap :
    let G : Header := ⟨0, 1, 0, 1⟩
    let P : Header := ⟨1, 1, 1, 2⟩
    let H : Header := ⟨2, 1, 5, 3⟩
    ∃ hc1 hc2, (newHeaderChain G).WriteHeader false P = some (.ok (.CanonStatTy, hc1)) ∧
      hc1.WriteHeader false H = some (.ok (.CanonStatTy, hc2)) ∧
      hc2.currentHeader = H ∧ hc2.canonical.lookup 2 = none ∧
      hc2.GetAncestor 3 5 2 0 = (0, 3, 0) ∧ follow (parentOf hc2.headers) 2 3 = some 1 := by
  refine ⟨_, _, rfl, rfl, rfl, by decide, by decide, by decide⟩

/-! ## The stored headers -/

/-- The headers and total difficulties stored: every header under its own,
non-empty hash; the genesis the only one of number 0; every other one above
a stored parent, with its parent's total difficulty plus its own
difficulty; and a total difficulty for exactly the stored headers. -/
structure StoreInv (genesis : Header) (headers : GoMap Hash Header) (tds : GoMap Hash Int) : Prop where
  hash : ∀ k h, headers.lookup k = some h → h.Hash = k ∧ k ≠ 0
  genesis_stored : headers.lookup genesis.Hash = some genesis
  genesis_number : genesis.Number = 0
  root : ∀ k h, headers.lookup k = some h → h.Number = 0 → h = genesis
  parent : ∀ k h, headers.lookup k = some h → 0 < h.Number →
    ∃ p, headers.lookup h.ParentHash = some p ∧ h.Number = p.Number + 1 ∧
      ∃ t, tds.lookup h.ParentHash = some t ∧ tds.lookup k = some (h.Difficulty + t)
  td : ∀ k, (tds.lookup k).isSome = (headers.lookup k).isSome

/-- A header the chain can take: one above a stored parent, with a hash that
is not empty and names no other stored header. -/
structure Extends (hc : HeaderChain) (header : Header) : Prop where
  parent : ∃ p, hc.headers.lookup header.ParentHash = some p ∧ header.Number = p.Number + 1
  hash_ne : header.Hash ≠ 0
  hash_fresh : ∀ h, hc.headers.lookup header.Hash = some h → h = header

section Store

variable {genesis : Header} {headers : GoMap Hash Header} {tds : GoMap Hash Int}

/-- From a stored header, a walk of at most its number reaches a stored
header that many numbers below. -/
theorem StoreInv.follow_stored (hs : StoreInv genesis headers tds) {k : Hash} {h : Header}
    (hk : headers.lookup k = some h) {n : Nat} (hn : n ≤ h.Number) :
    ∃ a, follow (parentOf headers) n k = some a.Hash ∧ headers.lookup a.Hash = some a ∧
      a.Number = h.Number - n := by
  have hstep : ∀ k, (headers.lookup k).isSome → 0 < ((headers.lookup k).map (·.Number)).getD 0 →
      ∃ k', parentOf headers k = some k' ∧ (headers.lookup k').isSome ∧
        ((headers.lookup k).map (·.Number)).getD 0 = ((headers.lookup k').map (·.Number)).getD 0 + 1 := by
    intro k hk hpos
    obtain ⟨h, hh⟩ := Option.isSome_iff_exists.1 hk
    rw [hh] at hpos
    obtain ⟨p, hp, hnum, -⟩ := hs.parent k h hh hpos
    exact ⟨h.ParentHash, by simp [parentOf, hh], by simp [hp], by simp [hh, hp, hnum]⟩
  obtain ⟨r, hr, hrp, hrl⟩ := follow_graded hstep (n := n) (k := k) (by simp [hk]) (by simpa [hk] using hn)
  obtain ⟨a, ha⟩ := Option.isSome_iff_exists.1 hrp
  have hra : a.Hash = r := (hs.hash r a ha).1
  refine ⟨a, by rw [hra, hr], by rw [hra, ha], ?_⟩
  simpa [hk, ha] using hrl

/-- A new header's hash names no other stored header, so every parent link
stays. -/
theorem parentOf_insert_mono {header : Header}
    (hfresh : ∀ h, headers.lookup header.Hash = some h → h = header) :
    ∀ k k', parentOf headers k = some k' → parentOf (headers.insert header.Hash header) k = some k' := by
  intro k k' hk
  obtain ⟨h, hh, rfl⟩ := Option.map_eq_some_iff.1 hk
  by_cases hkh : k = header.Hash
  · subst hkh
    rw [hfresh h hh]
    simp [parentOf]
  · simp [parentOf, AList.lookup_insert_ne hkh, hh]

/-- A header already stored has the total difficulty `WriteHeader` computes
for it again. -/
theorem StoreInv.td_of_stored (hs : StoreInv genesis headers tds) {header : Header}
    (hext : ∃ p, headers.lookup header.ParentHash = some p ∧ header.Number = p.Number + 1)
    (hfresh : ∀ h, headers.lookup header.Hash = some h → h = header) {ptd : Int}
    (hptd : tds.lookup header.ParentHash = some ptd) {t : Int} (ht : tds.lookup header.Hash = some t) :
    t = header.Difficulty + ptd := by
  obtain ⟨h, hh⟩ := Option.isSome_iff_exists.1 ((hs.td header.Hash) ▸ (Option.isSome_iff_exists.2 ⟨t, ht⟩))
  obtain rfl := hfresh h hh
  obtain ⟨_, -, hnum⟩ := hext
  obtain ⟨_, -, -, t', ht', hself⟩ := hs.parent _ _ hh (by omega)
  rw [hptd] at ht'
  cases ht'
  rw [ht] at hself
  exact Option.some_inj.1 hself

/-- **Storing a header keeps the store consistent.** -/
theorem StoreInv.insert (hs : StoreInv genesis headers tds) {header : Header} {ptd : Int}
    (hext : ∃ p, headers.lookup header.ParentHash = some p ∧ header.Number = p.Number + 1)
    (hne : header.Hash ≠ 0) (hfresh : ∀ h, headers.lookup header.Hash = some h → h = header)
    (hptd : tds.lookup header.ParentHash = some ptd) :
    StoreInv genesis (headers.insert header.Hash header) (tds.insert header.Hash (header.Difficulty + ptd)) := by
  obtain ⟨P, hP, hnum⟩ := hext
  -- the td lookups of the new store are the old ones, the new header's apart
  have htds : ∀ k, k ≠ header.Hash →
      (tds.insert header.Hash (header.Difficulty + ptd)).lookup k = tds.lookup k :=
    fun k hk => AList.lookup_insert_ne hk
  -- the parent's hash is not the new header's: it is one number below
  have hPne : header.ParentHash ≠ header.Hash := by
    intro heq
    rw [heq] at hP
    rw [hfresh P hP] at hnum
    omega
  refine ⟨fun k h hk => ?_, ?_, hs.genesis_number, fun k h hk hz => ?_, fun k h hk hpos => ?_, fun k => ?_⟩
  · by_cases hkh : k = header.Hash
    · subst hkh
      rw [AList.lookup_insert] at hk
      cases hk
      exact ⟨rfl, hne⟩
    · rw [AList.lookup_insert_ne hkh] at hk
      exact hs.hash k h hk
  · by_cases hg : genesis.Hash = header.Hash
    · rw [← hfresh genesis (hg ▸ hs.genesis_stored), hg, AList.lookup_insert]
    · rw [AList.lookup_insert_ne hg]
      exact hs.genesis_stored
  · by_cases hkh : k = header.Hash
    · subst hkh
      rw [AList.lookup_insert] at hk
      cases hk
      omega
    · rw [AList.lookup_insert_ne hkh] at hk
      exact hs.root k h hk hz
  · by_cases hkh : k = header.Hash
    · -- the new header: its parent is stored below it
      subst hkh
      rw [AList.lookup_insert] at hk
      cases hk
      refine ⟨P, by rw [AList.lookup_insert_ne hPne, hP], hnum, ptd, by rw [htds _ hPne, hptd], ?_⟩
      rw [AList.lookup_insert]
    · rw [AList.lookup_insert_ne hkh] at hk
      obtain ⟨p, hp, hpn, t, ht, hself⟩ := hs.parent k h hk hpos
      rw [htds k hkh]
      by_cases hph : h.ParentHash = header.Hash
      · -- a child of a header written again: its td is computed the same
        have hpeq := hfresh p (hph ▸ hp)
        have ht' := hs.td_of_stored ⟨P, hP, hnum⟩ hfresh hptd (hph ▸ ht)
        refine ⟨p, by rw [hph, hpeq, AList.lookup_insert], hpn, t, ?_, hself⟩
        rw [hph, AList.lookup_insert, ht']
      · exact ⟨p, by rw [AList.lookup_insert_ne hph, hp], hpn, t, by rw [htds _ hph, ht], hself⟩
  · by_cases hkh : k = header.Hash
    · subst hkh
      simp [AList.lookup_insert]
    · rw [htds k hkh, AList.lookup_insert_ne hkh]
      exact hs.td k

end Store

/-! ## The loops of `WriteHeader` -/

/-- **The deletion keeps the hashes below `i`.** On canonical hashes, none
empty, at exactly the numbers from `i` up to `c`, with a round for each and
one to stop, the deletion from `i` removes every hash from `i` on. -/
theorem deleteLoop_lookup {c : Nat} :
    ∀ (fuel : Nat) (canonical : GoMap Nat Hash) (i : Nat),
      (∀ j, i ≤ j → ((canonical.lookup j).isSome ↔ j ≤ c)) →
      (∀ j v, canonical.lookup j = some v → v ≠ 0) → c + 1 < fuel + i →
      ∀ j, (deleteLoop fuel canonical i).lookup j = if j < i then canonical.lookup j else none := by
  intro fuel
  induction fuel with
  | zero =>
    intro canonical i hkeys _ hfuel j
    -- no round left: every number from `i` on is above `c`
    rw [deleteLoop]
    split_ifs with hj
    · rfl
    · exact Option.not_isSome_iff_eq_none.1 fun h => by have := (hkeys j (by omega)).1 h; omega
  | succ fuel ih =>
    intro canonical i hkeys hne hfuel j
    rw [deleteLoop]
    by_cases hi : i ≤ c
    · -- a hash at `i`: it goes, and the deletion goes on above
      obtain ⟨v, hv⟩ := Option.isSome_iff_exists.1 ((hkeys i le_rfl).2 hi)
      rw [hv, Option.getD_some, if_neg (hne i v hv)]
      have hkeys' : ∀ j, i + 1 ≤ j → (((canonical.erase i).lookup j).isSome ↔ j ≤ c) := by
        intro j hj
        rw [AList.lookup_erase_ne (by omega)]
        exact hkeys j (by omega)
      have hne' : ∀ j v, (canonical.erase i).lookup j = some v → v ≠ 0 := by
        intro j v hjv
        by_cases hji : j = i
        · rw [hji, AList.lookup_erase] at hjv
          cases hjv
        · rw [AList.lookup_erase_ne hji] at hjv
          exact hne j v hjv
      rw [ih (canonical.erase i) (i + 1) hkeys' hne' (by omega) j]
      by_cases hji : j = i
      · subst hji
        simp [AList.lookup_erase]
      · by_cases hjl : j < i
        · rw [if_pos (by omega), if_pos hjl, AList.lookup_erase_ne hji]
        · rw [if_neg (by omega), if_neg hjl]
    · -- no hash at `i`: the deletion stops
      have hnone : canonical.lookup i = none :=
        Option.not_isSome_iff_eq_none.1 fun h => hi ((hkeys i le_rfl).1 h)
      rw [hnone, Option.getD_none, if_pos rfl]
      split_ifs with hj
      · rfl
      · exact Option.not_isSome_iff_eq_none.1 fun h => by have := (hkeys j (by omega)).1 h; omega

section Reorg

variable {genesis : Header} {headers : GoMap Hash Header} {tds : GoMap Hash Int}

/-- **The reorganisation walk.** Against an old index that is the ancestry
of a stored header `T` of number `c`, and a canonical map that agrees with it
up to the number `m` of a stored header `A`, the walk from `A` ends within
`m + 1` rounds with the ancestry of `A` up to `m` and the map unchanged above.
It stops where the index already holds the ancestor, at the latest at the
genesis. -/
theorem reorgLoop_spec (hs : StoreInv genesis headers tds) {old : GoMap Nat Hash} {c : Nat}
    {T : Header} (hT : headers.lookup T.Hash = some T) (hTc : T.Number = c)
    (hold : ∀ j, old.lookup j = if j ≤ c then follow (parentOf headers) (c - j) T.Hash else none) :
    ∀ (m fuel : Nat) (canonical : GoMap Nat Hash) (A : Header),
      headers.lookup A.Hash = some A → A.Number = m → m + 1 ≤ fuel →
      (∀ j ≤ m, canonical.lookup j = old.lookup j) →
      ∃ canonical', reorgLoop headers fuel canonical A.Hash m (some A) = some canonical' ∧
        ∀ j, canonical'.lookup j =
          if j ≤ m then follow (parentOf headers) (m - j) A.Hash else canonical.lookup j := by
  intro m
  induction m with
  | zero =>
    intro fuel canonical A hA hAm hfuel hagree
    obtain ⟨f, rfl⟩ : ∃ f, fuel = f + 1 := ⟨fuel - 1, by omega⟩
    -- at number 0 the index holds the genesis, which `A` is
    have hAg : A = genesis := hs.root _ A hA hAm
    obtain ⟨g, hg, hgs, hgn⟩ := hs.follow_stored hT (n := c) (by omega)
    have hgg : g = genesis := hs.root _ g hgs (by omega)
    have h0 : canonical.lookup 0 = some A.Hash := by
      rw [hagree 0 le_rfl, hold 0, if_pos (Nat.zero_le _), Nat.sub_zero, hg, hgg, hAg]
    refine ⟨canonical, ?_, fun j => ?_⟩
    · rw [reorgLoop, h0, Option.getD_some, if_neg (not_not.2 rfl)]
    · split_ifs with hj
      · rw [show j = 0 by omega, h0]
        rfl
      · rfl
  | succ m ih =>
    intro fuel canonical A hA hAm hfuel hagree
    obtain ⟨f, rfl⟩ : ∃ f, fuel = f + 1 := ⟨fuel - 1, by omega⟩
    obtain ⟨hAhash, hAne⟩ := hs.hash _ A hA
    by_cases hstop : (canonical.lookup (m + 1)).getD 0 = A.Hash
    · -- the index already holds `A`: below it, the ancestries of `T` and `A` agree
      have hsome : old.lookup (m + 1) = some A.Hash := by
        rw [← hagree (m + 1) le_rfl]
        cases h : canonical.lookup (m + 1) with
        | none => rw [h, Option.getD_none] at hstop; exact absurd hstop.symm hAne
        | some v => rw [h, Option.getD_some] at hstop; rw [hstop]
      rw [hold] at hsome
      split_ifs at hsome with hmc
      refine ⟨canonical, by rw [reorgLoop, if_neg (not_not.2 hstop)], fun j => ?_⟩
      split_ifs with hj
      · rw [hagree j hj, hold, if_pos (by omega),
          show c - j = (m + 1 - j) + (c - (m + 1)) by omega, follow_add_of_eq hsome]
      · rfl
    · -- the index is stale at `m + 1`: `A` is written there and the walk goes to its parent
      obtain ⟨B, hB, hnum, -⟩ := hs.parent _ A hA (by omega)
      have hBhash : B.Hash = A.ParentHash := (hs.hash _ B hB).1
      have hB' : headers.lookup B.Hash = some B := hBhash ▸ hB
      have hagree' : ∀ j ≤ m, (canonical.insert (m + 1) A.Hash).lookup j = old.lookup j := by
        intro j hj
        rw [AList.lookup_insert_ne (by omega)]
        exact hagree j (by omega)
      obtain ⟨canonical', hrun, hlook⟩ :=
        ih f (canonical.insert (m + 1) A.Hash) B hB' (by omega) (by omega) hagree'
      refine ⟨canonical', ?_, fun j => ?_⟩
      · rw [reorgLoop, if_pos hstop]
        show reorgLoop headers f (canonical.insert (m + 1) A.Hash) A.ParentHash (A.Number - 1)
          (headers.lookup A.ParentHash) = some canonical'
        rw [show A.Number - 1 = m by omega, ← hBhash, hB']
        exact hrun
      · have hpar : parentOf headers A.Hash = some B.Hash := by simp [parentOf, hA, hBhash]
        rw [hlook j]
        split_ifs with hj hj' hj'
        · rw [show m + 1 - j = (m - j) + 1 by omega, follow_succ_of_parent hpar]
        · omega
        · rw [show j = m + 1 by omega, AList.lookup_insert, Nat.sub_self]
          rfl
        · rw [AList.lookup_insert_ne (by omega)]

end Reorg

/-! ## The invariant -/

/-- **The chain is consistent.** The store is; the head is stored under its
hash; the canonical index holds, at every number up to the head's, the hash
reached from the head by walking back to that number, and nothing above; and
no stored total difficulty beats the head's. -/
structure Inv (genesis : Header) (hc : HeaderChain) : Prop where
  store : StoreInv genesis hc.headers hc.tds
  current : hc.headers.lookup hc.currentHeaderHash = some hc.currentHeader
  canonical : ∀ j, hc.canonical.lookup j =
    if j ≤ hc.currentHeader.Number then
      follow (parentOf hc.headers) (hc.currentHeader.Number - j) hc.currentHeaderHash
    else none
  td_max : ∀ k t, hc.tds.lookup k = some t → ∀ tc, hc.tds.lookup hc.currentHeaderHash = some tc → t ≤ tc

variable {genesis : Header} {hc : HeaderChain} {header : Header}

theorem lookup_insert_empty {K V : Type} [DecidableEq K] (k₀ k : K) (v : V) :
    ((∅ : GoMap K V).insert k₀ v).lookup k = if k = k₀ then some v else none := by
  split_ifs with h
  · rw [h, AList.lookup_insert]
  · rw [AList.lookup_insert_ne h]
    rfl

theorem Inv.newHeaderChain (hg : genesis.Number = 0) (hgh : genesis.Hash ≠ 0) :
    Inv genesis (newHeaderChain genesis) := by
  -- each map of the new chain holds the one entry of the genesis
  have hheaders : ∀ k h, (Core.newHeaderChain genesis).headers.lookup k = some h →
      k = genesis.Hash ∧ h = genesis := by
    intro k h hk
    simp only [Core.newHeaderChain, lookup_insert_empty] at hk
    split_ifs at hk with hkg
    cases hk
    exact ⟨hkg, rfl⟩
  refine ⟨⟨fun k h hk => ?_, AList.lookup_insert _, hg, fun k h hk _ => (hheaders k h hk).2,
    fun k h hk hpos => ?_, fun k => ?_⟩, AList.lookup_insert _, fun j => ?_, fun k t hk tc htc => ?_⟩
  · obtain ⟨rfl, rfl⟩ := hheaders k h hk
    exact ⟨rfl, hgh⟩
  · obtain ⟨-, rfl⟩ := hheaders k h hk
    omega
  · simp only [Core.newHeaderChain, lookup_insert_empty]
    split_ifs <;> rfl
  · show ((∅ : GoMap Nat Hash).insert 0 genesis.Hash).lookup j =
      if j ≤ genesis.Number then
        follow (parentOf (Core.newHeaderChain genesis).headers) (genesis.Number - j) genesis.Hash
      else none
    rw [hg, lookup_insert_empty]
    split_ifs with hj hj' hj'
    · rw [hj]
      rfl
    · omega
    · omega
    · rfl
  · simp only [Core.newHeaderChain, lookup_insert_empty] at hk htc
    split_ifs at hk
    cases hk
    rw [if_pos trivial] at htc
    cases htc
    exact le_rfl

/-- The canonical index has a stored header at every number up to the
head's. -/
theorem Inv.canonical_stored (hi : Inv genesis hc) {j : Nat} (hj : j ≤ hc.currentHeader.Number) :
    ∃ a, hc.canonical.lookup j = some a.Hash ∧ hc.headers.lookup a.Hash = some a ∧ a.Number = j := by
  obtain ⟨a, ha, has, hnum⟩ := hi.store.follow_stored hi.current (n := hc.currentHeader.Number - j) (by omega)
  exact ⟨a, by rw [hi.canonical j, if_pos hj, ha], has, by omega⟩

theorem Inv.canonical_isSome (hi : Inv genesis hc) (j : Nat) :
    (hc.canonical.lookup j).isSome ↔ j ≤ hc.currentHeader.Number := by
  constructor
  · intro h
    by_contra hj
    rw [hi.canonical j, if_neg hj] at h
    cases h
  · intro hj
    obtain ⟨a, ha, -, -⟩ := hi.canonical_stored hj
    rw [ha]
    rfl

theorem Inv.canonical_ne_zero (hi : Inv genesis hc) {j : Nat} {v : Hash} (h : hc.canonical.lookup j = some v) :
    v ≠ 0 := by
  have hj : j ≤ hc.currentHeader.Number := (hi.canonical_isSome j).1 (by rw [h]; rfl)
  obtain ⟨a, ha, has, -⟩ := hi.canonical_stored hj
  rw [ha] at h
  cases h
  exact (hi.store.hash _ a has).2

/-- The index holds a hash for each number up to the head's, so the deletion
loop's fuel covers them. -/
theorem Inv.number_lt_length (hi : Inv genesis hc) :
    hc.currentHeader.Number + 1 ≤ hc.canonical.entries.length := by
  have hsub : List.range (hc.currentHeader.Number + 1) ⊆ hc.canonical.keys := by
    intro j hj
    rw [← AList.mem_keys, ← AList.lookup_isSome, hi.canonical_isSome]
    exact Nat.lt_succ_iff.1 (List.mem_range.1 hj)
  have hlen := (List.subperm_of_subset List.nodup_range hsub).length_le
  rwa [List.length_range, AList.keys, List.keys, List.length_map] at hlen

/-- The index of the old head, walked in the store with a header more. -/
theorem Inv.canonical_insert (hi : Inv genesis hc)
    (hfresh : ∀ h, hc.headers.lookup header.Hash = some h → h = header) :
    ∀ j, hc.canonical.lookup j =
      if j ≤ hc.currentHeader.Number then
        follow (parentOf (hc.headers.insert header.Hash header)) (hc.currentHeader.Number - j)
          hc.currentHeaderHash
      else none := by
  intro j
  rw [hi.canonical j]
  split_ifs with hj
  · obtain ⟨a, ha, -, -⟩ := hi.store.follow_stored hi.current (n := hc.currentHeader.Number - j) (by omega)
    rw [ha, follow_mono (parentOf_insert_mono hfresh) ha]
  · rfl

/-- **`WriteHeader` takes a header one above a stored parent** and keeps the
chain consistent: it neither panics nor runs out of its loops. -/
theorem Inv.WriteHeader (hi : Inv genesis hc) (hext : Extends hc header) (coin : Bool) :
    ∃ status hc', hc.WriteHeader coin header = some (.ok (status, hc')) ∧ Inv genesis hc' := by
  obtain ⟨P, hP, hnum⟩ := hext.parent
  obtain ⟨ptd, hptd⟩ := Option.isSome_iff_exists.1 ((hi.store.td _).trans (by rw [hP]; rfl))
  obtain ⟨localTd, hlocal⟩ :=
    Option.isSome_iff_exists.1 ((hi.store.td _).trans (by rw [hi.current]; rfl))
  have hstore := hi.store.insert hext.parent hext.hash_ne hext.hash_fresh hptd
  have hPhash : P.Hash = header.ParentHash := (hi.store.hash _ P hP).1
  have hPne : P.Hash ≠ header.Hash := by
    intro h
    have hPh : P = header := hext.hash_fresh P (by rw [← h, hPhash]; exact hP)
    rw [hPh] at hnum
    omega
  have hP' : (hc.headers.insert header.Hash header).lookup P.Hash = some P := by
    rw [AList.lookup_insert_ne hPne, hPhash, hP]
  have hcur' : (hc.headers.insert header.Hash header).lookup hc.currentHeaderHash = some hc.currentHeader := by
    by_cases hch : hc.currentHeaderHash = header.Hash
    · rw [hch, AList.lookup_insert, ← hext.hash_fresh _ (hch ▸ hi.current)]
    · rw [AList.lookup_insert_ne hch, hi.current]
  -- the head's td after the write is the old one, also when the head is written again
  have hcur_td : (hc.tds.insert header.Hash (header.Difficulty + ptd)).lookup hc.currentHeaderHash =
      some localTd := by
    by_cases hch : hc.currentHeaderHash = header.Hash
    · have hsame := hi.store.td_of_stored hext.parent hext.hash_fresh hptd (t := localTd)
        (by rw [← hch]; exact hlocal)
      rw [hch, AList.lookup_insert, hsame]
    · rw [AList.lookup_insert_ne hch, hlocal]
  have hold_td : ∀ k t, (hc.tds.insert header.Hash (header.Difficulty + ptd)).lookup k = some t →
      k ≠ header.Hash → t ≤ localTd := by
    intro k t hk hkh
    rw [AList.lookup_insert_ne hkh] at hk
    exact hi.td_max k t hk localTd hlocal
  unfold HeaderChain.WriteHeader
  simp only [GetTd, hptd, hlocal, Gbtpeader]
  split_ifs with hwin
  · -- the new head: the index is cut above it and rewritten below it
    have hdel := deleteLoop_lookup (c := hc.currentHeader.Number) (hc.canonical.entries.length + 1)
      hc.canonical (header.Number + 1) (fun j _ => hi.canonical_isSome j)
      (fun j v h => hi.canonical_ne_zero h) (by have := hi.number_lt_length; omega)
    have hcurHash : hc.currentHeader.Hash = hc.currentHeaderHash := (hi.store.hash _ _ hi.current).1
    obtain ⟨canonical', hrun, hlook⟩ := @reorgLoop_spec genesis _ _ hstore hc.canonical
      hc.currentHeader.Number hc.currentHeader (by rw [hcurHash]; exact hcur') rfl
      (fun j => by rw [hcurHash]; exact hi.canonical_insert hext.hash_fresh j)
      P.Number (header.Number + 1) _ P hP' rfl (by omega)
      (fun j hj => by rw [hdel j, if_pos (by omega)])
    rw [← hPhash, show header.Number - 1 = P.Number by omega, hP', hrun]
    refine ⟨_, _, rfl, hstore, AList.lookup_insert _, fun j => ?_, fun k t hk tc htc => ?_⟩
    · have hpar : parentOf (hc.headers.insert header.Hash header) header.Hash = some P.Hash := by
        simp [parentOf, AList.lookup_insert, hPhash]
      show (canonical'.insert header.Number header.Hash).lookup j =
        if j ≤ header.Number then
          follow (parentOf (hc.headers.insert header.Hash header)) (header.Number - j) header.Hash
        else none
      by_cases hjn : j = header.Number
      · rw [hjn, AList.lookup_insert, if_pos le_rfl, Nat.sub_self]
        rfl
      · rw [AList.lookup_insert_ne hjn, hlook j]
        split_ifs with hj hj'
        · -- below the new head: the ancestry of its parent, one step further
          rw [show header.Number - j = (P.Number - j) + 1 by omega, follow_succ_of_parent hpar]
        · omega
        · omega
        · -- above it: deleted
          rw [hdel j, if_neg (by omega)]
    · -- the new head's td is the largest
      show t ≤ tc
      rw [AList.lookup_insert] at htc
      cases htc
      by_cases hkh : k = header.Hash
      · rw [hkh, AList.lookup_insert] at hk
        exact le_of_eq (Option.some_inj.1 hk).symm
      · have := hold_td k t hk hkh
        rcases hwin with hlt | ⟨heq, -⟩
        · exact this.trans hlt.le
        · exact this.trans heq.ge
  · -- a side header: stored, and the index and head stay
    have hle : header.Difficulty + ptd ≤ localTd := by
      by_contra hlt
      exact hwin (.inl (lt_of_not_ge hlt))
    refine ⟨_, _, rfl, hstore, hcur', hi.canonical_insert hext.hash_fresh, fun k t hk tc htc => ?_⟩
    show t ≤ tc
    rw [show (hc.tds.insert header.Hash (header.Difficulty + ptd)).lookup hc.currentHeaderHash = _ from htc] at hcur_td
    cases hcur_td
    by_cases hkh : k = header.Hash
    · rw [hkh, AList.lookup_insert] at hk
      cases hk
      exact hle
    · exact hold_td k t hk hkh

/-! ## Runs -/

/-- The chains a run of writes of headers one above a stored parent reaches
from a genesis of number 0 and a non-empty hash. -/
inductive Reach (genesis : Header) : HeaderChain → Prop
  | init : genesis.Number = 0 → genesis.Hash ≠ 0 → Reach genesis (newHeaderChain genesis)
  | write {hc hc' : HeaderChain} {coin : Bool} {header : Header} {status : WriteStatus} :
      Reach genesis hc → Extends hc header →
      hc.WriteHeader coin header = some (.ok (status, hc')) → Reach genesis hc'

/-- **Every reachable chain is consistent.** -/
theorem Reach.inv (hr : Reach genesis hc) : Inv genesis hc := by
  induction hr with
  | init hg hgh => exact Inv.newHeaderChain hg hgh
  | write _ hext hwrite ih =>
    obtain ⟨status, hc', hw, hi'⟩ := ih.WriteHeader hext _
    rw [hwrite] at hw
    cases hw
    exact hi'

/-! ## `GetAncestor` -/

/-- **The walk of `GetAncestor`** from a stored header gives up with the
empty hash at number 0, or ends at the header that many parents back: it
jumps along the canonical index only where that index holds the header it
stands on, and there the index is the head's ancestry. -/
theorem Inv.ancestorLoop (hi : Inv genesis hc) :
    ∀ (ancestor : Nat) (hash : Hash) (budget : Nat) (X : Header),
      hc.headers.lookup hash = some X → ancestor ≤ X.Number →
      let r := hc.ancestorLoop ancestor hash X.Number budget
      (r.1 = 0 ∧ r.2.1 = 0) ∨
        (follow (parentOf hc.headers) ancestor hash = some r.1 ∧ r.2.1 = X.Number - ancestor) := by
  intro ancestor
  induction ancestor with
  | zero =>
    intro hash budget X _ _
    exact .inr ⟨rfl, rfl⟩
  | succ a ih =>
    intro hash budget X hX ha
    obtain ⟨hXhash, hne⟩ := hi.store.hash _ X hX
    dsimp only
    rw [HeaderChain.ancestorLoop]
    split_ifs with hcan hbudget
    · -- on the index: the hash there is the head's ancestor, so the jump lands right
      have hsome : hc.canonical.lookup X.Number = some hash := by
        unfold ReadCanonicalHash at hcan
        cases h : hc.canonical.lookup X.Number with
        | none => rw [h, Option.getD_none] at hcan; exact absurd hcan.symm hne
        | some v => rw [h, Option.getD_some] at hcan; rw [hcan]
      rw [hi.canonical] at hsome
      split_ifs at hsome with hXc
      obtain ⟨b, hb, -, -⟩ := hi.store.follow_stored hX (n := a + 1) ha
      refine .inr ⟨?_, rfl⟩
      rw [hb]
      unfold ReadCanonicalHash
      rw [hi.canonical, if_pos (by omega),
        show hc.currentHeader.Number - (X.Number - (a + 1)) = (a + 1) + (hc.currentHeader.Number - X.Number)
          by omega, follow_add_of_eq hsome, hb]
      rfl
    · exact .inl ⟨rfl, rfl⟩
    · -- off the index: one step to the parent, which is stored one number below
      obtain ⟨Y, hY, hnum, -⟩ := hi.store.parent _ X hX (by omega)
      have hYhash : Y.Hash = X.ParentHash := (hi.store.hash _ Y hY).1
      show (match hc.Gbtpeader hash X.Number with
        | none => ((0 : Hash), 0, budget - 1)
        | some header => hc.ancestorLoop a header.ParentHash (X.Number - 1) (budget - 1)).1 = 0 ∧ _ ∨ _
      rw [Gbtpeader, hX]
      dsimp only
      rw [show X.Number - 1 = Y.Number by omega]
      have hpar : parentOf hc.headers hash = some X.ParentHash := by simp [parentOf, hX]
      rcases ih X.ParentHash (budget - 1) Y hY (by omega) with h | ⟨hfollow, hnumber⟩
      · exact .inl h
      · refine .inr ⟨by rw [follow_succ_of_parent hpar, hfollow], by omega⟩

/-- **`GetAncestor` from a stored header** returns the empty hash at
number 0, or the header reached by following the parent links `ancestor`
times, at its number; for every budget. -/
theorem Inv.GetAncestor (hi : Inv genesis hc) {hash : Hash} {X : Header}
    (hX : hc.headers.lookup hash = some X) (ancestor budget : Nat) :
    let r := hc.GetAncestor hash X.Number ancestor budget
    (r.1 = 0 ∧ r.2.1 = 0) ∨
      (follow (parentOf hc.headers) ancestor hash = some r.1 ∧ r.2.1 = X.Number - ancestor) := by
  dsimp only
  unfold HeaderChain.GetAncestor
  split_ifs with hgt hone
  · exact .inl ⟨rfl, rfl⟩
  · -- the parent, read off the header
    subst hone
    rw [Gbtpeader, hX]
    exact .inr ⟨by simp [follow_succ, parentOf, hX], rfl⟩
  · exact hi.ancestorLoop ancestor hash budget X hX (by omega)

/-- **The canonical index is the head's ancestry.** In every chain a run of
writes of headers one above a stored parent reaches: writing such a header
returns, with no panic; the canonical hashes from 0 to the head's number are
the hashes reached from the head by walking back, and there is none above;
no stored total difficulty beats the head's; and `GetAncestor` from a stored
header returns the empty hash at number 0 or the header reached by following
its parent links `ancestor` times, at its number. -/
theorem header_chain_canonical_index {genesis : Header} {hc : HeaderChain} (hr : Reach genesis hc) :
    (∀ coin header, Extends hc header →
      ∃ status hc', hc.WriteHeader coin header = some (.ok (status, hc'))) ∧
    hc.currentHeaderHash = hc.currentHeader.Hash ∧
    (∀ j ≤ hc.currentHeader.Number, ∃ a, follow (parentOf hc.headers) (hc.currentHeader.Number - j)
      hc.currentHeader.Hash = some a ∧ hc.ReadCanonicalHash j = a) ∧
    (∀ j, hc.currentHeader.Number < j → hc.canonical.lookup j = none) ∧
    (∃ tc, hc.GetTd hc.currentHeaderHash hc.currentHeader.Number = some tc ∧
      ∀ k h, hc.Gbtpeader k h.Number = some h → ∃ t, hc.GetTd k h.Number = some t ∧ t ≤ tc) ∧
    (∀ hash X ancestor budget, hc.Gbtpeader hash X.Number = some X →
      let r := hc.GetAncestor hash X.Number ancestor budget
      (r.1 = 0 ∧ r.2.1 = 0) ∨
        (follow (parentOf hc.headers) ancestor hash = some r.1 ∧ r.2.1 = X.Number - ancestor)) := by
  have hi := hr.inv
  have hcurHash : hc.currentHeader.Hash = hc.currentHeaderHash := (hi.store.hash _ _ hi.current).1
  obtain ⟨tc, htc⟩ := Option.isSome_iff_exists.1 ((hi.store.td _).trans (by rw [hi.current]; rfl))
  refine ⟨fun coin header hext => ?_, hcurHash.symm, fun j hj => ?_, fun j hj => ?_, ⟨tc, htc, ?_⟩,
    fun hash X ancestor budget hX => hi.GetAncestor hX ancestor budget⟩
  · obtain ⟨status, hc', hw, -⟩ := hi.WriteHeader hext coin
    exact ⟨status, hc', hw⟩
  · obtain ⟨a, ha, has, -⟩ := hi.canonical_stored hj
    refine ⟨a.Hash, ?_, by rw [ReadCanonicalHash, ha]; rfl⟩
    rw [hi.canonical j, if_pos hj] at ha
    rw [hcurHash]
    exact ha
  · rw [hi.canonical j, if_neg (by omega)]
  · intro k h hk
    obtain ⟨t, ht⟩ := Option.isSome_iff_exists.1 ((hi.store.td _).trans (by rw [show hc.headers.lookup k = some h from hk]; rfl))
    exact ⟨t, ht, hi.td_max k t ht tc htc⟩

/-- A header one above a stored parent, under a fresh non-empty hash, is one
the chain can take. -/
theorem Extends.of_fresh {hc : HeaderChain} {header : Header} (p : Header)
    (hp : hc.headers.lookup header.ParentHash = some p) (hn : header.Number = p.Number + 1)
    (hne : header.Hash ≠ 0) (hfresh : hc.headers.lookup header.Hash = none) : Extends hc header :=
  ⟨⟨p, hp, hn⟩, hne, fun h hh => by rw [hfresh] at hh; cases hh⟩

/-- A genesis and two headers on it, then a heavier header at number 1 on a
side branch: the reorg makes it the head, rewrites the canonical hash at 1
and drops the one at 2. -/
theorem header_chain_canonical_index_after_reorg :
    ∃ hc, Reach ⟨0, 1, 0, 1⟩ hc ∧ hc.currentHeader = ⟨1, 5, 1, 4⟩ ∧
      hc.ReadCanonicalHash 1 = 4 ∧ hc.ReadCanonicalHash 0 = 1 ∧ hc.canonical.lookup 2 = none := by
  have r0 : Reach ⟨0, 1, 0, 1⟩ (newHeaderChain ⟨0, 1, 0, 1⟩) := .init rfl (by decide)
  have r1 := @Reach.write _ _ _ false ⟨1, 1, 1, 2⟩ .CanonStatTy r0
    (Extends.of_fresh ⟨0, 1, 0, 1⟩ (by decide) rfl (by decide) (by decide)) rfl
  have r2 := @Reach.write _ _ _ false ⟨2, 1, 2, 3⟩ .CanonStatTy r1
    (Extends.of_fresh ⟨1, 1, 1, 2⟩ (by decide) rfl (by decide) (by decide)) rfl
  -- the side header's total difficulty 6 beats the head's 3
  have r3 := @Reach.write _ _ _ false ⟨1, 5, 1, 4⟩ .CanonStatTy r2
    (Extends.of_fresh ⟨0, 1, 0, 1⟩ (by decide) rfl (by decide) (by decide)) rfl
  obtain ⟨-, -, hcanon, habove, -, -⟩ := header_chain_canonical_index r3
  obtain ⟨a₁, hf₁, hr₁⟩ := hcanon 1 le_rfl
  obtain ⟨a₀, hf₀, hr₀⟩ := hcanon 0 (Nat.zero_le _)
  refine ⟨_, r3, rfl, ?_, ?_, habove 2 (by decide)⟩
  · rw [hr₁, ← Option.some_inj, ← hf₁]
    rfl
  · rw [hr₀, ← Option.some_inj, ← hf₀]
    decide

end HeaderChain

end Btp.Core
