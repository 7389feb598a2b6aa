import Mathlib
import Btp.Common.Types

/-!
# Uncle verification and uncle rewards

`btpash.VerifyUncles` of `consensus/ethash/consensus.go`: a block's uncles
must be at most two, new among the uncles of its seven ancestors and of the
block itself, not ancestors, children of an ancestor other than the
block's parent, and valid headers over that parent; `verifyHeader` checks
that an uncle is one above its parent, and its other checks (extra data,
time, difficulty, gas, seal, fork fields) are given as two predicates, those
before the number check and those after. `accumulateRewards` credits each
uncle's coinbase with `(U.Number + 8 - B.Number) * R / 8` and the miner
with `R` and `R / 32` per uncle; a config enters by whether Byzantium and
Constantinople are active at the block.

A chain is a list of blocks from the first, whose parent the chain does not
hold; `GetBlock` returns the block of a hash among those before the block
verified. A header's hash is a field: distinct headers of the chain have
distinct hashes, and a hash commits to the parent hash and to the uncles, so
that a rank of hashes grows along these links (`Commits`).

Blocks whose numbers do not follow their parents' numbers pass, and an
uncle then gets a negative reward; the fully faking engine accepts a block
with one uncle twice (`VerifyUncles_accepts_backward_uncle`). On chains
whose numbers follow, every uncle is rewarded once, for between two and
seven eighths of the block reward (`uncles_rewarded_once`).
-/

namespace Btp.Ethash

/-- `types.Header`, by the fields uncle verification and rewards read;
`Hash` is `header.Hash()`. -/
structure Header where
  ParentHash : Hash
  Coinbase : Address
  Number : Nat
  Hash : Hash
  deriving DecidableEq, Repr

/-- `types.Block`, by its header and uncles. -/
structure Block where
  header : Header
  uncles : List Header

/-- The errors of `VerifyUncles`. -/
inductive VerifyError
  | errTooManyUncles
  | errDuplicateUncle
  | errUncleIsAncestor
  | errDanglingUncle
  /-- `consensus.ErrInvalidNumber` of `verifyHeader`. -/
  | ErrInvalidNumber
  /-- Another check of `verifyHeader`. -/
  | invalidHeader
  deriving DecidableEq, Repr

/-- `maxUncles`. -/
def maxUncles : Nat := 2

/-- `FrontierBlockReward`, in wei. -/
def FrontierBlockReward : Int := 5000000000000000000

/-- `ByzantiumBlockReward`. -/
def ByzantiumBlockReward : Int := 3000000000000000000

/-- `ConstantinopleBlockReward`. -/
def ConstantinopleBlockReward : Int := 2000000000000000000

/-- `verifyHeader` of an uncle over its parent: the number check between the
checks `before` and `after` it. -/
def verifyHeader (before after : Header → Header → Bool) (header parent : Header) :
    Except VerifyError Unit :=
  if !before header parent then .error .invalidHeader
  -- verify that the block number is parent's +1
  else if (header.Number : Int) - parent.Number ≠ 1 then .error .ErrInvalidNumber
  else if !after header parent then .error .invalidHeader
  else .ok ()

/-- The loop gathering the uncles and ancestors of the seven ancestors of a
block: `fuel` rounds, each reading the block of `parent` and going to its
parent. -/
def gatherLoop (GetBlock : Hash → Nat → Option Block) :
    Nat → Hash → Nat → List Hash → GoMap Hash Header → List Hash × GoMap Hash Header
  | 0, _, _, uncles, ancestors => (uncles, ancestors)
  | fuel + 1, parent, number, uncles, ancestors =>
    match GetBlock parent number with
    | none => (uncles, ancestors)
    | some ancestor =>
      gatherLoop GetBlock fuel ancestor.header.ParentHash (number - 1)
        (ancestor.uncles.map (·.Hash) ++ uncles) (ancestors.insert ancestor.header.Hash ancestor.header)

/-- The loop over a block's uncles. -/
def uncleLoop (before after : Header → Header → Bool) (block : Block) (ancestors : GoMap Hash Header) :
    List Hash → List Header → Except VerifyError Unit
  | _, [] => .ok ()
  | uncles, uncle :: rest =>
    -- make sure every uncle is rewarded only once
    if uncles.contains uncle.Hash then .error .errDuplicateUncle
    -- make sure the uncle has a valid ancestry
    else if (ancestors.lookup uncle.Hash).isSome then .error .errUncleIsAncestor
    else match ancestors.lookup uncle.ParentHash with
      | none => .error .errDanglingUncle
      | some parent =>
        if uncle.ParentHash = block.header.ParentHash then .error .errDanglingUncle
        else match verifyHeader before after uncle parent with
          | .error e => .error e
          | .ok () => uncleLoop before after block ancestors (uncle.Hash :: uncles) rest

/-- `VerifyUncles`, with `fullFake` for the engine in `ModeFullFake`. -/
def VerifyUncles (fullFake : Bool) (before after : Header → Header → Bool)
    (GetBlock : Hash → Nat → Option Block) (block : Block) : Except VerifyError Unit :=
  if fullFake then .ok ()
  else if block.uncles.length > maxUncles then .error .errTooManyUncles
  else if block.uncles.length = 0 then .ok ()
  else
    let gathered := gatherLoop GetBlock 7 block.header.ParentHash (block.header.Number - 1) [] ∅
    let ancestors := gathered.2.insert block.header.Hash block.header
    uncleLoop before after block ancestors (block.header.Hash :: gathered.1) block.uncles

/-- The block reward of `accumulateRewards`. -/
def blockRewardOf (IsByzantium IsConstantinople : Bool) : Int :=
  let blockReward := FrontierBlockReward
  let blockReward := if IsByzantium then ByzantiumBlockReward else blockReward
  if IsConstantinople then ConstantinopleBlockReward else blockReward

/-- `accumulateRewards`: the `AddBalance` calls it makes, in order. -/
def accumulateRewards (IsByzantium IsConstantinople : Bool) (header : Header) (uncles : List Header) :
    List (Address × Int) :=
  let blockReward := blockRewardOf IsByzantium IsConstantinople
  let step := fun (acc : List (Address × Int) × Int) (uncle : Header) =>
    (acc.1 ++ [(uncle.Coinbase, ((uncle.Number : Int) + 8 - header.Number) * blockReward / 8)],
      acc.2 + blockReward / 32)
  let credits := uncles.foldl step ([], blockReward)
  credits.1 ++ [(header.Coinbase, credits.2)]

/-- `chain.GetBlock` over the blocks of a chain: the block of a hash. -/
def chainGetBlock (blocks : List Block) (hash : Hash) (_number : Nat) : Option Block :=
  blocks.find? (·.header.Hash = hash)

/-- **Uncles the checks let through.** A chain whose second block jumps from
number 0 to 10 has, in its third block, an uncle of the first accepted, and
its coinbase is credited a quarter of the block reward less than nothing;
and the fully faking engine accepts a block that names one uncle twice. -/
theorem VerifyUncles_accepts_backward_uncle :
    let yes := fun (_ _ : Header) => true
    let B0 : Block := ⟨⟨0, 0, 0, 1⟩, []⟩
    let B1 : Block := ⟨⟨1, 0, 10, 3⟩, []⟩
    let U : Header := ⟨1, 7, 1, 2⟩
    let B2 : Block := ⟨⟨3, 0, 11, 4⟩, [U]⟩
    VerifyUncles false yes yes (chainGetBlock []) B0 = .ok () ∧
      VerifyUncles false yes yes (chainGetBlock [B0]) B1 = .ok () ∧
      VerifyUncles false yes yes (chainGetBlock [B0, B1]) B2 = .ok () ∧
      (accumulateRewards false false B2.header B2.uncles).head? = some (7, -2 * FrontierBlockReward / 8) ∧
      VerifyUncles true yes yes (chainGetBlock []) ⟨⟨0, 0, 1, 1⟩, [U, U]⟩ = .ok () := by
  refine ⟨rfl, rfl, by decide, by decide, rfl⟩

/-! ## What an accepted block's uncles satisfy -/

section Verify

variable {before after : Header → Header → Bool}

theorem verifyHeader_number {header parent : Header}
    (h : verifyHeader before after header parent = .ok ()) : header.Number = parent.Number + 1 := by
  unfold verifyHeader at h
  split_ifs at h with h1 h2
  omega

/-- The uncles the loop accepts are distinct, new, no ancestors, and valid
children of an ancestor other than the block's parent. -/
theorem uncleLoop_ok {block : Block} {ancestors : GoMap Hash Header} :
    ∀ (uncles : List Hash) (us : List Header),
      uncleLoop before after block ancestors uncles us = .ok () →
      (us.map (·.Hash)).Nodup ∧ ∀ u ∈ us, u.Hash ∉ uncles ∧ ancestors.lookup u.Hash = none ∧
        ∃ parent, ancestors.lookup u.ParentHash = some parent ∧
          u.ParentHash ≠ block.header.ParentHash ∧ u.Number = parent.Number + 1 := by
  intro uncles us
  induction us generalizing uncles with
  | nil => exact fun _ => ⟨List.nodup_nil, fun u hu => nomatch hu⟩
  | cons u rest ih =>
    intro h
    unfold uncleLoop at h
    by_cases hdup : u.Hash ∈ uncles
    · rw [if_pos (List.contains_iff_mem.2 hdup)] at h
      cases h
    rw [if_neg (mt List.contains_iff_mem.1 hdup)] at h
    by_cases hanc : (ancestors.lookup u.Hash).isSome
    · rw [if_pos hanc] at h
      cases h
    rw [if_neg hanc] at h
    cases hparent : ancestors.lookup u.ParentHash with
    | none =>
      simp only [hparent] at h
      cases h
    | some parent =>
      simp only [hparent] at h
      by_cases hpar : u.ParentHash = block.header.ParentHash
      · rw [if_pos hpar] at h
        cases h
      rw [if_neg hpar] at h
      cases hverify : verifyHeader before after u parent with
      | error e =>
        rw [hverify] at h
        cases h
      | ok _ =>
        rw [hverify] at h
        obtain ⟨hnodup, hrest⟩ := ih _ h
        refine ⟨List.nodup_cons.2 ⟨fun hmem => ?_, hnodup⟩, fun v hv => ?_⟩
        · -- a later uncle of the same hash meets it among the seen hashes
          obtain ⟨v, hv, hvu⟩ := List.mem_map.1 hmem
          exact (hrest v hv).1 (by rw [hvu]; exact List.mem_cons_self)
        · rcases List.mem_cons.1 hv with rfl | hv
          · exact ⟨hdup, Option.not_isSome_iff_eq_none.1 hanc, parent, hparent, hpar,
              verifyHeader_number hverify⟩
          · obtain ⟨hseen, hrest⟩ := hrest v hv
            exact ⟨fun hm => hseen (List.mem_cons_of_mem _ hm), hrest⟩

/-- **What an accepted block's uncles satisfy**, against what the loop over
its ancestors gathered. -/
theorem VerifyUncles_ok {GetBlock : Hash → Nat → Option Block} {block : Block}
    (h : VerifyUncles false before after GetBlock block = .ok ()) :
    let gathered := gatherLoop GetBlock 7 block.header.ParentHash (block.header.Number - 1) [] ∅
    (block.uncles.map (·.Hash)).Nodup ∧ ∀ u ∈ block.uncles,
      u.Hash ≠ block.header.Hash ∧ u.Hash ∉ gathered.1 ∧ gathered.2.lookup u.Hash = none ∧
      ∃ parent, (gathered.2.insert block.header.Hash block.header).lookup u.ParentHash = some parent ∧
        u.ParentHash ≠ block.header.ParentHash ∧ u.Number = parent.Number + 1 := by
  intro gathered
  unfold VerifyUncles at h
  rw [if_neg Bool.false_ne_true] at h
  split_ifs at h with hmany hnone
  · -- no uncles
    rw [List.length_eq_zero_iff.1 hnone]
    exact ⟨List.nodup_nil, fun u hu => nomatch hu⟩
  · dsimp only at h
    obtain ⟨hnodup, hus⟩ := uncleLoop_ok _ _ h
    refine ⟨hnodup, fun u hu => ?_⟩
    obtain ⟨hseen, hanc, parent, hparent, hpar, hnum⟩ := hus u hu
    have hne : u.Hash ≠ block.header.Hash := fun heq => hseen (by rw [heq]; exact List.mem_cons_self)
    refine ⟨hne, fun hm => hseen (List.mem_cons_of_mem _ hm), ?_, parent, hparent, hpar, hnum⟩
    rwa [AList.lookup_insert_ne hne] at hanc

end Verify

/-! ## The gathering loop -/

section Gather

variable {GetBlock : Hash → Nat → Option Block}

/-- The gathering loop keeps what it started with. -/
theorem gatherLoop_mono :
    ∀ (fuel : Nat) (parent : Hash) (number : Nat) (uncles : List Hash) (ancestors : GoMap Hash Header),
      (∀ h ∈ uncles, h ∈ (gatherLoop GetBlock fuel parent number uncles ancestors).1) ∧
      ∀ h, (ancestors.lookup h).isSome →
        ((gatherLoop GetBlock fuel parent number uncles ancestors).2.lookup h).isSome := by
  intro fuel
  induction fuel with
  | zero => exact fun _ _ _ _ => ⟨fun _ hh => hh, fun _ hh => hh⟩
  | succ fuel ih =>
    intro parent number uncles ancestors
    rw [gatherLoop]
    split
    · exact ⟨fun _ hh => hh, fun _ hh => hh⟩
    · next ancestor _ =>
      obtain ⟨hu, ha⟩ := ih ancestor.header.ParentHash (number - 1)
        (ancestor.uncles.map (·.Hash) ++ uncles) (ancestors.insert ancestor.header.Hash ancestor.header)
      refine ⟨fun h hh => hu h (List.mem_append_right _ hh), fun h hh => ha h ?_⟩
      by_cases hk : h = ancestor.header.Hash
      · rw [hk, AList.lookup_insert]
        rfl
      · rwa [AList.lookup_insert_ne hk]

theorem gatherLoop_of_none {fuel : Nat} {parent : Hash} {number : Nat} {uncles : List Hash}
    {ancestors : GoMap Hash Header} (h : GetBlock parent number = none) :
    gatherLoop GetBlock fuel parent number uncles ancestors = (uncles, ancestors) := by
  cases fuel with
  | zero => rfl
  | succ fuel => rw [gatherLoop, h]

end Gather

/-! ## Rewards -/

/-- The `AddBalance` calls of `accumulateRewards`: each uncle's coinbase in
order, then the miner's. -/
theorem accumulateRewards_eq (IsByzantium IsConstantinople : Bool) (header : Header) (uncles : List Header) :
    accumulateRewards IsByzantium IsConstantinople header uncles =
      uncles.map (fun u => (u.Coinbase, ((u.Number : Int) + 8 - header.Number) *
        blockRewardOf IsByzantium IsConstantinople / 8)) ++
      [(header.Coinbase, blockRewardOf IsByzantium IsConstantinople +
        uncles.length * (blockRewardOf IsByzantium IsConstantinople / 32))] := by
  -- the fold appends one credit per uncle and adds a share to the miner's
  have hfold : ∀ (us : List Header) (credits : List (Address × Int)) (reward : Int),
      us.foldl (fun (acc : List (Address × Int) × Int) (uncle : Header) =>
        (acc.1 ++ [(uncle.Coinbase, ((uncle.Number : Int) + 8 - header.Number) *
          blockRewardOf IsByzantium IsConstantinople / 8)],
          acc.2 + blockRewardOf IsByzantium IsConstantinople / 32)) (credits, reward) =
      (credits ++ us.map (fun u => (u.Coinbase, ((u.Number : Int) + 8 - header.Number) *
          blockRewardOf IsByzantium IsConstantinople / 8)),
        reward + us.length * (blockRewardOf IsByzantium IsConstantinople / 32)) := by
    intro us
    induction us with
    | nil => intro credits reward; simp
    | cons u us ih =>
      intro credits reward
      rw [List.foldl_cons, ih]
      simp only [List.map_cons, List.append_assoc, List.singleton_append, List.length_cons,
        Nat.cast_add, Nat.cast_one, Prod.mk.injEq, true_and]
      ring
  unfold accumulateRewards
  dsimp only
  rw [hfold]
  simp

theorem blockRewardOf_pos (IsByzantium IsConstantinople : Bool) :
    0 < blockRewardOf IsByzantium IsConstantinople := by
  unfold blockRewardOf
  split_ifs <;> decide

/-- An uncle one to six numbers below the block is credited between two and
seven eighths of the block reward. -/
theorem uncle_reward_bounds {R : Int} (hR : 0 < R) {uncleNumber number : Nat}
    (hlo : number ≤ uncleNumber + 6) (hhi : uncleNumber + 1 ≤ number) :
    2 * R / 8 ≤ ((uncleNumber : Int) + 8 - number) * R / 8 ∧
      ((uncleNumber : Int) + 8 - number) * R / 8 ≤ 7 * R / 8 ∧
      0 ≤ ((uncleNumber : Int) + 8 - number) * R / 8 := by
  have h2 : (2 : Int) ≤ (uncleNumber : Int) + 8 - number := by omega
  have h7 : (uncleNumber : Int) + 8 - number ≤ 7 := by omega
  refine ⟨Int.ediv_le_ediv (by norm_num) (mul_le_mul_of_nonneg_right h2 hR.le),
    Int.ediv_le_ediv (by norm_num) (mul_le_mul_of_nonneg_right h7 hR.le), ?_⟩
  exact Int.ediv_nonneg (mul_nonneg (by omega) hR.le) (by norm_num)

/-! ## Chains -/

/-- Each block of the chain is a child of the one before it, one number
above it. -/
def Linked (blocks : List Block) : Prop :=
  ∀ i a b, blocks[i]? = some a → blocks[i + 1]? = some b →
    b.header.ParentHash = a.header.Hash ∧ b.header.Number = a.header.Number + 1

/-- What the hashes of the chain's headers give: a hash names one header,
and a header's hash commits to its parent's hash and, through its uncle
hash, to the hashes of its uncles, so that `rank` grows along these links. -/
structure Commits (rank : Hash → Nat) (blocks : List Block) : Prop where
  inj : ∀ b ∈ blocks, ∀ b' ∈ blocks, ∀ u ∈ b.header :: b.uncles, ∀ u' ∈ b'.header :: b'.uncles,
    u.Hash = u'.Hash → u = u'
  parent : ∀ b ∈ blocks, rank b.header.ParentHash < rank b.header.Hash
  uncle : ∀ b ∈ blocks, ∀ u ∈ b.uncles, rank u.ParentHash < rank u.Hash ∧ rank u.Hash < rank b.header.Hash

/-- Every block of the chain is accepted by `VerifyUncles` against the blocks
before it. -/
def Accepted (before after : Header → Header → Bool) (blocks : List Block) : Prop :=
  ∀ k b, blocks[k]? = some b → VerifyUncles false before after (chainGetBlock (blocks.take k)) b = .ok ()

section Chain

variable {blocks : List Block} {rank : Hash → Nat}

theorem exists_getElem?_of_succ {i : Nat} {b : Block} (hb : blocks[i + 1]? = some b) :
    ∃ a, blocks[i]? = some a := by
  have hlt := (List.getElem?_eq_some_iff.1 hb).1
  exact ⟨blocks[i], List.getElem?_eq_getElem (by omega)⟩

/-- Numbers go up by one along the chain. -/
theorem Linked.number_add (hl : Linked blocks) {i : Nat} {a : Block} (ha : blocks[i]? = some a) :
    ∀ (d : Nat) (b : Block), blocks[i + d]? = some b → b.header.Number = a.header.Number + d := by
  intro d
  induction d with
  | zero =>
    intro b hb
    rw [Nat.add_zero, ha] at hb
    cases hb
    rfl
  | succ d ih =>
    intro b hb
    obtain ⟨c, hc⟩ := exists_getElem?_of_succ hb
    rw [(hl _ c b hc hb).2, ih c hc]
    omega

/-- Hash ranks go up along the chain. -/
theorem Commits.rank_add (hc : Commits rank blocks) (hl : Linked blocks) {i : Nat} {a : Block}
    (ha : blocks[i]? = some a) :
    ∀ (d : Nat) (b : Block), blocks[i + d]? = some b → rank a.header.Hash + d ≤ rank b.header.Hash := by
  intro d
  induction d with
  | zero =>
    intro b hb
    rw [Nat.add_zero, ha] at hb
    cases hb
    exact le_rfl
  | succ d ih =>
    intro b hb
    obtain ⟨c, hcd⟩ := exists_getElem?_of_succ hb
    have hpar := hc.parent b (List.mem_of_getElem? hb)
    rw [(hl _ c b hcd hb).1] at hpar
    have := ih c hcd
    omega

/-- Blocks at different places of the chain have different hashes. -/
theorem Commits.hash_ne (hc : Commits rank blocks) (hl : Linked blocks) {i j : Nat} {a b : Block}
    (ha : blocks[i]? = some a) (hb : blocks[j]? = some b) (hij : i ≠ j) : a.header.Hash ≠ b.header.Hash := by
  intro heq
  rcases Nat.lt_or_gt_of_ne hij with hlt | hlt
  · have := hc.rank_add hl ha (j - i) b (by rw [Nat.add_sub_cancel' hlt.le]; exact hb)
    rw [heq] at this
    omega
  · have := hc.rank_add hl hb (i - j) a (by rw [Nat.add_sub_cancel' hlt.le]; exact ha)
    rw [heq] at this
    omega

theorem mem_take_getElem? {k : Nat} {c : Block} (h : c ∈ blocks.take k) :
    ∃ j, j < k ∧ blocks[j]? = some c := by
  obtain ⟨j, hj⟩ := List.mem_iff_getElem?.1 h
  rw [List.getElem?_take] at hj
  split_ifs at hj with hjk
  exact ⟨j, hjk, hj⟩

/-- `GetBlock` over the blocks before the `k`-th finds each of them by its
hash. -/
theorem chainGetBlock_of_lt (hc : Commits rank blocks) (hl : Linked blocks) {i k number : Nat}
    {b : Block} (hik : i < k) (hb : blocks[i]? = some b) :
    chainGetBlock (blocks.take k) b.header.Hash number = some b := by
  unfold chainGetBlock
  cases h : (blocks.take k).find? (·.header.Hash = b.header.Hash) with
  | none =>
    have hmem : b ∈ blocks.take k := List.mem_iff_getElem?.2 ⟨i, by rw [List.getElem?_take, if_pos hik, hb]⟩
    exact absurd (by simp : decide (b.header.Hash = b.header.Hash) = true) (List.find?_eq_none.1 h b hmem)
  | some c =>
    -- the block found has the hash of `b`, so it is at the place of `b`
    obtain ⟨j, -, hj⟩ := mem_take_getElem? (List.mem_of_find?_eq_some h)
    have hhash : c.header.Hash = b.header.Hash := by simpa using List.find?_some h
    by_cases hji : j = i
    · rw [hji, hb] at hj
      exact congrArg some (Option.some_inj.1 hj).symm
    · exact absurd hhash (hc.hash_ne hl hj hb hji)

/-- The parent of the first block is not a block of the chain. -/
theorem chainGetBlock_first (hc : Commits rank blocks) (hl : Linked blocks) {k number : Nat}
    {a : Block} (ha : blocks[0]? = some a) :
    chainGetBlock (blocks.take k) a.header.ParentHash number = none := by
  unfold chainGetBlock
  refine List.find?_eq_none.2 fun c hc' heq => ?_
  obtain ⟨j, -, hj⟩ := mem_take_getElem? hc'
  have hrank := hc.rank_add hl ha j c (by rw [Nat.zero_add]; exact hj)
  have hpar := hc.parent a (List.mem_of_getElem? ha)
  rw [← of_decide_eq_true heq] at hpar
  omega

/-- **The seven ancestors.** Walking back from the `j`-th block, with the
blocks before the `k`-th to read, the loop gathers the uncles and the headers
of the blocks from the `j`-th down, one per round, and only those. -/
theorem gatherLoop_window (hc : Commits rank blocks) (hl : Linked blocks) {k : Nat} :
    ∀ (fuel j : Nat) (a : Block) (number : Nat) (uncles : List Hash) (ancestors : GoMap Hash Header),
      j < k → blocks[j]? = some a →
      let g := gatherLoop (chainGetBlock (blocks.take k)) fuel a.header.Hash number uncles ancestors
      (∀ i c, i ≤ j → j < i + fuel → blocks[i]? = some c →
        (∀ u ∈ c.uncles, u.Hash ∈ g.1) ∧ (g.2.lookup c.header.Hash).isSome) ∧
      (∀ h x, g.2.lookup h = some x → ancestors.lookup h = some x ∨
        ∃ i c, i ≤ j ∧ j < i + fuel ∧ blocks[i]? = some c ∧ x = c.header ∧ c.header.Hash = h) := by
  intro fuel
  induction fuel with
  | zero =>
    intro j a number uncles ancestors _ _
    exact ⟨fun i c hij hji _ => absurd hji (by omega), fun h x hx => .inl hx⟩
  | succ fuel ih =>
    intro j a number uncles ancestors hjk ha
    dsimp only
    rw [gatherLoop, chainGetBlock_of_lt hc hl hjk ha]
    dsimp only
    -- what the round with the `j`-th block adds stays to the end
    have hmono := @gatherLoop_mono (chainGetBlock (blocks.take k)) fuel a.header.ParentHash
      (number - 1) (a.uncles.map (·.Hash) ++ uncles) (ancestors.insert a.header.Hash a.header)
    have hround : ∀ i c, i = j → blocks[i]? = some c →
        (∀ u ∈ c.uncles, u.Hash ∈ (a.uncles.map (·.Hash) ++ uncles)) ∧
        ((ancestors.insert a.header.Hash a.header).lookup c.header.Hash).isSome := by
      intro i c hij hc'
      rw [hij, ha] at hc'
      cases hc'
      exact ⟨fun u hu => List.mem_append_left _ (List.mem_map_of_mem hu), by simp [AList.lookup_insert]⟩
    have hins : ∀ h x, (ancestors.insert a.header.Hash a.header).lookup h = some x →
        ancestors.lookup h = some x ∨
          ∃ i c, i ≤ j ∧ j < i + (fuel + 1) ∧ blocks[i]? = some c ∧ x = c.header ∧ c.header.Hash = h := by
      intro h x hx
      by_cases hh : h = a.header.Hash
      · rw [hh, AList.lookup_insert] at hx
        exact .inr ⟨j, a, le_rfl, by omega, ha, (Option.some_inj.1 hx).symm, hh.symm⟩
      · rw [AList.lookup_insert_ne hh] at hx
        exact .inl hx
    cases j with
    | zero =>
      -- the parent of the first block ends the walk
      rw [gatherLoop_of_none (chainGetBlock_first hc hl ha)]
      refine ⟨fun i c hij _ hc' => hround i c (by omega) hc', hins⟩
    | succ j =>
      obtain ⟨a', ha'⟩ := exists_getElem?_of_succ ha
      rw [(hl _ a' a ha' ha).1]
      obtain ⟨hfirst, hsecond⟩ := ih j a' (number - 1) _ _ (by omega) ha'
      rw [(hl _ a' a ha' ha).1] at hmono
      refine ⟨fun i c hij hji hc' => ?_, fun h x hx => ?_⟩
      · by_cases hieq : i = j + 1
        · obtain ⟨hu, hkey⟩ := hround i c hieq hc'
          exact ⟨fun u hu' => hmono.1 _ (hu u hu'), hmono.2 _ hkey⟩
        · exact hfirst i c (by omega) (by omega) hc'
      · rcases hsecond h x hx with hx | ⟨i, c, hij, hji, hc', rfl, hhash⟩
        · exact hins h x hx
        · exact .inr ⟨i, c, by omega, by omega, hc', rfl, hhash⟩

variable {before after : Header → Header → Bool}

/-- **An accepted uncle, against the chain.** An uncle of the `k`-th block is
none of the seven blocks before it and none of their uncles, and its parent
is one of them, two to seven blocks back. -/
theorem Accepted.uncle_window (hc : Commits rank blocks) (hl : Linked blocks)
    (hacc : Accepted before after blocks) {k : Nat} {B : Block} (hB : blocks[k]? = some B)
    {u : Header} (hu : u ∈ B.uncles) :
    (∀ i c, i < k → k ≤ i + 7 → blocks[i]? = some c →
      (∀ u' ∈ c.uncles, u'.Hash ≠ u.Hash) ∧ c.header.Hash ≠ u.Hash) ∧
    ∃ i c, i + 2 ≤ k ∧ k ≤ i + 7 ∧ blocks[i]? = some c ∧ u.ParentHash = c.header.Hash ∧
      c.header.Hash ≠ B.header.ParentHash ∧ u.Number = c.header.Number + 1 := by
  have hv := VerifyUncles_ok (hacc k B hB)
  dsimp only at hv
  obtain ⟨hne, hnot, hnone, parent, hparent, hpar, hnum⟩ := hv.2 u hu
  -- the uncle's parent is not the block itself, whose hash commits to the uncle's
  have hself : u.ParentHash ≠ B.header.Hash := by
    intro heq
    have := hc.uncle B (List.mem_of_getElem? hB) u hu
    rw [heq] at this
    omega
  rw [AList.lookup_insert_ne hself] at hparent
  cases k with
  | zero =>
    -- the first block's parent is not on the chain: nothing is gathered
    rw [gatherLoop_of_none (chainGetBlock_first hc hl hB)] at hparent
    simp at hparent
  | succ j =>
    obtain ⟨a, ha⟩ := exists_getElem?_of_succ hB
    have hlink := hl j a B ha hB
    rw [hlink.1] at hnot hnone hparent hpar
    obtain ⟨hfirst, hsecond⟩ := gatherLoop_window hc hl (k := j + 1) 7 j a (B.header.Number - 1) [] ∅ (by omega) ha
    refine ⟨fun i c hik hki hc' => ?_, ?_⟩
    · obtain ⟨huncles, hkey⟩ := hfirst i c (by omega) (by omega) hc'
      refine ⟨fun u' hu' heq => hnot (heq ▸ huncles u' hu'), fun heq => ?_⟩
      rw [heq, hnone] at hkey
      exact Bool.false_ne_true hkey
    · rcases hsecond _ _ hparent with hempty | ⟨i, c, hij, hji, hc', rfl, hhash⟩
      · simp at hempty
      -- the parent is not the block's own parent, so it is at least two back
      have hij' : i ≠ j := by
        rintro rfl
        rw [ha] at hc'
        cases hc'
        exact hpar hhash.symm
      refine ⟨i, c, by omega, by omega, hc', hhash.symm, ?_, hnum⟩
      rw [hlink.1, hhash]
      exact hpar

/-- An uncle of an accepted block is one to six numbers below it. -/
theorem Accepted.uncle_number (hc : Commits rank blocks) (hl : Linked blocks)
    (hacc : Accepted before after blocks) {k : Nat} {B : Block} (hB : blocks[k]? = some B)
    {u : Header} (hu : u ∈ B.uncles) :
    B.header.Number ≤ u.Number + 6 ∧ u.Number + 1 ≤ B.header.Number := by
  obtain ⟨-, i, c, hik, hki, hc', -, -, hnum⟩ := hacc.uncle_window hc hl hB hu
  have hB' := hl.number_add hc' (k - i) B (by rw [Nat.add_sub_cancel' (by omega)]; exact hB)
  omega

/-- The block at a later place of the chain has a larger number. -/
theorem Linked.number_sub (hl : Linked blocks) {i k : Nat} {a b : Block} (hik : i ≤ k)
    (ha : blocks[i]? = some a) (hb : blocks[k]? = some b) :
    b.header.Number = a.header.Number + (k - i) :=
  hl.number_add ha (k - i) b (by rw [Nat.add_sub_cancel' hik]; exact hb)

/-- **Uncles are rewarded once.** Along a chain whose blocks each pass
`VerifyUncles` against the blocks before them, no hash is an uncle twice in
a block or in two blocks, no uncle is a block of the chain, each uncle is one
to six numbers below its block with a parent two to seven blocks back, and
`accumulateRewards` credits it between two and seven eighths of the block
reward. -/
theorem uncles_rewarded_once (hl : Linked blocks) (hc : Commits rank blocks)
    (hacc : Accepted before after blocks) :
    (∀ (k : Nat) (B : Block), blocks[k]? = some B → (B.uncles.map (·.Hash)).Nodup) ∧
    (∀ (k m : Nat) (B B' : Block), k < m → blocks[k]? = some B → blocks[m]? = some B' →
      ∀ u ∈ B.uncles, ∀ u' ∈ B'.uncles, u.Hash ≠ u'.Hash) ∧
    (∀ (k j : Nat) (B C : Block), blocks[k]? = some B → blocks[j]? = some C →
      ∀ u ∈ B.uncles, u.Hash ≠ C.header.Hash) ∧
    (∀ (k : Nat) (B : Block), blocks[k]? = some B → ∀ u ∈ B.uncles,
      B.header.Number ≤ u.Number + 6 ∧ u.Number + 1 ≤ B.header.Number ∧
      ∃ i C, i + 2 ≤ k ∧ blocks[i]? = some C ∧ u.ParentHash = C.header.Hash ∧
        C.header.Hash ≠ B.header.ParentHash) ∧
    (∀ (k : Nat) (B : Block), blocks[k]? = some B → ∀ IsByzantium IsConstantinople,
      let R := blockRewardOf IsByzantium IsConstantinople
      accumulateRewards IsByzantium IsConstantinople B.header B.uncles =
        B.uncles.map (fun u => (u.Coinbase, ((u.Number : Int) + 8 - B.header.Number) * R / 8)) ++
          [(B.header.Coinbase, R + B.uncles.length * (R / 32))] ∧
      ∀ u ∈ B.uncles, 2 * R / 8 ≤ ((u.Number : Int) + 8 - B.header.Number) * R / 8 ∧
        ((u.Number : Int) + 8 - B.header.Number) * R / 8 ≤ 7 * R / 8 ∧
        0 ≤ ((u.Number : Int) + 8 - B.header.Number) * R / 8) := by
  -- two uncles, or an uncle and a block header, of one hash are one header
  have hinj : ∀ {k m : Nat} {B B' : Block} {u u' : Header}, blocks[k]? = some B → blocks[m]? = some B' →
      u ∈ B.header :: B.uncles → u' ∈ B'.header :: B'.uncles → u.Hash = u'.Hash → u = u' :=
    fun hB hB' hu hu' heq => hc.inj _ (List.mem_of_getElem? hB) _ (List.mem_of_getElem? hB') _ hu _ hu' heq
  refine ⟨fun k B hB => (VerifyUncles_ok (hacc k B hB)).1, ?_, ?_, ?_, ?_⟩
  · -- uncles in two blocks: within the window, by the gathered uncles; beyond it, by numbers
    intro k m B B' hkm hB hB' u hu u' hu' heq
    by_cases hwin : m ≤ k + 7
    · exact ((hacc.uncle_window hc hl hB' hu').1 k B hkm hwin hB).1 u hu heq
    · have hsame := hinj hB hB' (List.mem_cons_of_mem _ hu) (List.mem_cons_of_mem _ hu') heq
      have hnum := hacc.uncle_number hc hl hB hu
      have hnum' := hacc.uncle_number hc hl hB' hu'
      have hBB' := hl.number_sub hkm.le hB hB'
      rw [hsame] at hnum
      omega
  · -- an uncle and a block: the window's headers, or numbers on either side of it
    intro k j B C hB hC u hu heq
    have hsame := hinj hB hC (List.mem_cons_of_mem _ hu) List.mem_cons_self heq
    have hnum := hacc.uncle_number hc hl hB hu
    rcases Nat.lt_or_ge j k with hjk | hkj
    · by_cases hwin : k ≤ j + 7
      · exact ((hacc.uncle_window hc hl hB hu).1 j C hjk hwin hC).2 heq.symm
      · have := hl.number_sub hjk.le hC hB
        rw [← hsame] at this
        omega
    · have := hl.number_sub hkj hB hC
      rw [← hsame] at this
      omega
  · intro k B hB u hu
    obtain ⟨-, i, C, hik, -, hC, hpar, hne, -⟩ := hacc.uncle_window hc hl hB hu
    exact ⟨(hacc.uncle_number hc hl hB hu).1, (hacc.uncle_number hc hl hB hu).2, i, C, hik, hC, hpar, hne⟩
  · intro k B hB IsByzantium IsConstantinople
    refine ⟨accumulateRewards_eq _ _ _ _, fun u hu => ?_⟩
    have hnum := hacc.uncle_number hc hl hB hu
    exact uncle_reward_bounds (blockRewardOf_pos _ _) hnum.1 hnum.2

/-- The theorem on a chain of three blocks whose last names a second child of
the first as an uncle. -/
theorem uncles_rewarded_once_on_three_blocks :
    let yes := fun (_ _ : Header) => true
    let U : Header := ⟨1, 7, 1, 5⟩
    let B2 : Block := ⟨⟨2, 0, 2, 9⟩, [U]⟩
    let blocks : List Block := [⟨⟨0, 0, 0, 1⟩, []⟩, ⟨⟨1, 0, 1, 2⟩, []⟩, B2]
    Linked blocks ∧ Commits BitVec.toNat blocks ∧ Accepted yes yes blocks ∧
      B2.header.Number ≤ U.Number + 6 ∧ U.Number + 1 ≤ B2.header.Number ∧
      ∃ i C, i + 2 ≤ 2 ∧ blocks[i]? = some C ∧ U.ParentHash = C.header.Hash ∧
        C.header.Hash ≠ B2.header.ParentHash := by
  intro yes U B2 blocks
  have hl : Linked blocks := by
    intro i a b ha hb
    rcases i with _ | _ | i
    · cases ha; cases hb; decide
    · cases ha; cases hb; decide
    · simp [blocks] at hb
  have hc : Commits BitVec.toNat blocks := ⟨by decide, by decide, by decide⟩
  have hacc : Accepted yes yes blocks := by
    intro k b hb
    rcases k with _ | _ | _ | k
    · cases hb; rfl
    · cases hb; rfl
    · cases hb; decide
    · simp [blocks] at hb
  exact ⟨hl, hc, hacc, (uncles_rewarded_once hl hc hacc).2.2.2.1 2 B2 rfl U List.mem_cons_self⟩

end Chain

end Btp.Ethash
