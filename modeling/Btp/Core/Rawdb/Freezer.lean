import Mathlib
import Btp.Common.Types
import Btp.Core.Rawdb.FreezerTable
import Btp.Lib.ExceptRun

/-!
# The freezer

`core/rawdb/freezer.go`: five freezer tables, one per kind of block data,
and the number `frozen` of blocks they all hold. `AppendAncient` appends one
block's five blobs, table after table; when one append fails, the deferred
`repair` cuts every table back to the shortest one. `TruncateAncients` cuts
every table to a given number of items.

The tables are pointers in a Go map, so an operation on a table changes the
map's value in place; here the map gets the new table under the same key. A
loop `for _, table := range f.tables` runs over the keys in the map's order,
and a failure stops it with the tables before it already changed. A missing
table in `AppendAncient` is a nil pointer and panics, and a failed `repair`
after a failed append is `log.Crit`, which exits: both give `none`. The file
system checks of `newFreezer` (symbolic link, lock) and the meters are left
out.
-/

namespace Btp.Rawdb

/-- The names of the tables, in the order `AppendAncient` fills them. -/
def freezerHashTable : String := "hashes"
def freezerHeaderTable : String := "headers"
def freezerBodiesTable : String := "bodies"
def freezerReceiptTable : String := "receipts"
def freezerDifficultyTable : String := "diffs"

/-- The five kinds. -/
def freezerKinds : List String :=
  [freezerHashTable, freezerHeaderTable, freezerBodiesTable, freezerReceiptTable, freezerDifficultyTable]

/-- `freezerNoSnappy`: which tables store their blobs uncompressed. -/
def freezerNoSnappy : GoMap String Bool :=
  (((((∅ : GoMap String Bool).insert freezerHeaderTable false).insert freezerHashTable true).insert
    freezerBodiesTable false).insert freezerReceiptTable false).insert freezerDifficultyTable true

/-- The errors of the freezer: its own, and those of a table. -/
inductive AncientError
  | errUnknownTable
  | errOutOrderInsertion
  | table (err : FreezerError)
deriving DecidableEq, Repr

/-- `freezer`. -/
structure Freezer where
  frozen : Nat
  tables : GoMap String FreezerTable

/-- `newTable`: a table of 2 GB files. -/
def newTable (disk : Disk) (disableSnappy : Bool) : Except FreezerError FreezerTable :=
  newCustomTable disk (2 * 1000 * 1000 * 1000) disableSnappy

/-- The loop `for _, table := range f.tables { ... }` over the keys `keys`,
applying `g` to each table until one fails. -/
def eachTable (g : FreezerTable → Except FreezerError FreezerTable) :
    GoMap String FreezerTable → List String → GoMap String FreezerTable × Option FreezerError
  | tables, [] => (tables, none)
  | tables, k :: ks =>
    match tables.lookup k with
    | none => eachTable g tables ks
    | some t =>
      match g t with
      | .error e => (tables, some e)
      | .ok t => eachTable g (tables.insert k t) ks

namespace Freezer

variable (codec : Codec)

/-- `freezer.HasAncient`. -/
def HasAncient (f : Freezer) (kind : String) (number : Nat) : Bool :=
  match f.tables.lookup kind with
  | some t => decide (t.items > number)
  | none => false

/-- `freezer.Ancient`. -/
def Ancient (f : Freezer) (kind : String) (number : Nat) : Except AncientError (List UInt8) :=
  match f.tables.lookup kind with
  | some t => (t.Retrieve codec number).mapError .table
  | none => .error .errUnknownTable

/-- `freezer.Ancients`. -/
def Ancients (f : Freezer) : Nat := f.frozen

/-- `freezer.repair`: cut every table to the number of items of the shortest. -/
def repair (f : Freezer) : Freezer × Option FreezerError :=
  let min := f.tables.entries.foldl (fun min e => if min > e.2.items then e.2.items else min) (2 ^ 64 - 1)
  match eachTable (·.truncate min) f.tables f.tables.keys with
  | (tables, some e) => ({ f with tables }, some e)
  | (tables, none) => ({ f with tables, frozen := min }, none)

/-- `freezer.TruncateAncients`. -/
def TruncateAncients (f : Freezer) (items : Nat) : Freezer × Option FreezerError :=
  if f.frozen ≤ items then (f, none)
  else
    match eachTable (·.truncate items) f.tables f.tables.keys with
    | (tables, some e) => ({ f with tables }, some e)
    | (tables, none) => ({ f with tables, frozen := items }, none)

/-- The five appends of `AppendAncient`, each to the table of its kind as
item `frozen`, until one fails: the tables then, and the failure. -/
def appendTables (f : Freezer) : List (String × List UInt8) → Option (Freezer × Option FreezerError)
  | [] => some (f, none)
  | (kind, blob) :: rest =>
    match f.tables.lookup kind with
    | none => none
    | some t =>
      match t.Append codec f.frozen blob with
      | .error e => some (f, some e)
      | .ok t => appendTables { f with tables := f.tables.insert kind t } rest

/-- `freezer.AppendAncient`: the freezer afterwards, and the error returned. -/
def AppendAncient (f : Freezer) (number : Nat) (hash header body receipts td : List UInt8) :
    Option (Freezer × Option AncientError) :=
  if f.frozen ≠ number then some (f, some .errOutOrderInsertion)
  else
    match f.appendTables codec [(freezerHashTable, hash), (freezerHeaderTable, header),
        (freezerBodiesTable, body), (freezerReceiptTable, receipts), (freezerDifficultyTable, td)] with
    | none => none
    | some (f, none) => some ({ f with frozen := f.frozen + 1 }, none)
    | some (f, some e) =>
      -- the deferred repair
      match f.repair with
      | (f, none) => some (f, some (.table e))
      | (_, some _) => none

end Freezer

/-! ## One table -/

theorem length_truncateBytes (b : List UInt8) (size : Nat) : (truncateBytes b size).length = size := by
  unfold truncateBytes
  split_ifs with h
  · simp [h]
  · simp only [List.length_append, List.length_replicate]
    omega

namespace FreezerTable

theorem openFile_forAppend (t : FreezerTable) (num : Nat) : ∃ t', t.openFile num .forAppend = .ok t' := by
  by_cases hf : num ∈ t.files
  · exact ⟨t, if_pos hf⟩
  · exact ⟨_, if_neg hf⟩

/-- `truncate` cannot fail: the index is first cut, or extended, to the entry
it reads back. It leaves `min items t.items` items. -/
theorem truncate_eq_ok (t : FreezerTable) (items : Nat) :
    ∃ t', t.truncate items = .ok t' ∧ t'.items = min t.items items := by
  by_cases h : t.items ≤ items
  · refine ⟨t, ?_, (Nat.min_eq_left h).symm⟩
    simp only [truncate, h, if_true]
    rfl
  · -- the index is cut to `items + 1` entries, so its last entry can be read
    obtain ⟨buffer, hread⟩ : ∃ b, readAt (truncateBytes t.disk.index ((items + 1) * indexEntrySize))
        (items * indexEntrySize) indexEntrySize = some b := by
      refine ⟨_, if_pos ?_⟩
      rw [length_truncateBytes]
      simp only [indexEntrySize]
      omega
    simp only [truncate, h, if_false, setIndex, hread, pure_bind]
    by_cases hf : (IndexEntry.unmarshalBinary buffer).filenum ≠ t.headId
    · -- cut back into an earlier file, which is opened for appending
      rw [if_pos hf]
      obtain ⟨u, hu⟩ := openFile_forAppend _ (IndexEntry.unmarshalBinary buffer).filenum
      rw [hu]
      exact ⟨_, rfl, by simp only; omega⟩
    · rw [if_neg hf]
      exact ⟨_, rfl, by simp only; omega⟩

theorem openFile_items {t t' : FreezerTable} {num : Nat} {o : Opener} (h : t.openFile num o = .ok t') :
    t'.items = t.items := by
  unfold openFile at h
  by_cases hf : num ∈ t.files
  · rw [if_pos hf] at h
    cases h
    rfl
  · rw [if_neg hf] at h
    cases o with
    | forAppend => cases h; rfl
    | forReadOnly =>
      simp only at h
      split at h
      · cases h; rfl
      · cases h
    | truncated => cases h; rfl

/-- A successful append counts one more item: starting a new head file, and
reopening the old one, keep the count. -/
theorem Append_items (codec : Codec) {t t' : FreezerTable} {item : Nat} {blob : List UInt8}
    (h : t.Append codec item blob = .ok t') : t'.items = t.items + 1 := by
  unfold Append at h
  -- the blob, compressed or not, plays no part in the count
  generalize (if t.noCompression = true then blob else codec.Encode blob) = b at h
  split_ifs at h with h1 h2
  all_goals simp only [ExceptRun.bind_eq_ok, ExceptRun.throw_ne_ok, false_and, exists_false] at h
  split at h
  all_goals simp only [ExceptRun.bind_eq_ok, ExceptRun.pure_eq_ok, pure_bind] at h
  · -- a new head file
    obtain ⟨u, hu, rfl⟩ := h
    simp only [setData, setIndex, ← openFile_items hu]
    split
    · rename_i v hv
      rw [openFile_items hv]
      rfl
    · rfl
  · subst h
    rfl
end FreezerTable

/-- `newFreezer` on the files `disks` of each table: open the five tables,
then repair. -/
def newFreezer (disks : String → Disk) : Except FreezerError Freezer := do
  let tables ← freezerNoSnappy.entries.foldlM
    (fun tables e => do
      let table ← newTable (disks e.1) e.2
      pure (tables.insert e.1 table))
    (∅ : GoMap String FreezerTable)
  match Freezer.repair ⟨0, tables⟩ with
  | (f, none) => pure f
  | (_, some e) => throw e

/-! ## Loops over the tables -/

/-- The number of items of the table of each kind. -/
def itemCounts (tables : GoMap String FreezerTable) (k : String) : Option Nat :=
  (tables.lookup k).map FreezerTable.items

theorem itemCounts_insert (tables : GoMap String FreezerTable) (k k' : String) (t : FreezerTable) :
    itemCounts (tables.insert k t) k' = if k' = k then some t.items else itemCounts tables k' := by
  by_cases h : k' = k
  · subst h
    simp [itemCounts]
  · simp [itemCounts, h, AList.lookup_insert_ne h]

/-- Truncating every table of the keys `ks` cannot fail: those tables get at
most `n` items, the others keep theirs. -/
theorem eachTable_truncate (n : Nat) (tables : GoMap String FreezerTable) (ks : List String) :
    ∃ tables', eachTable (·.truncate n) tables ks = (tables', none) ∧
      (∀ k, k ∈ tables' ↔ k ∈ tables) ∧
      ∀ k, itemCounts tables' k = (itemCounts tables k).map fun i => if k ∈ ks then min i n else i := by
  induction ks generalizing tables with
  | nil => exact ⟨tables, rfl, fun _ => Iff.rfl, fun k => by simp⟩
  | cons k₀ ks ih =>
    cases hk : tables.lookup k₀ with
    | none =>
      -- no table of this kind: the loop goes on
      obtain ⟨tables', hrun, hkeys, hitems⟩ := ih tables
      refine ⟨tables', by simp [eachTable, hk, hrun], hkeys, fun k => ?_⟩
      rw [hitems k]
      by_cases h : k = k₀
      · subst h
        simp [itemCounts, hk]
      · simp [h]
    | some t =>
      obtain ⟨t', ht, hitems'⟩ := FreezerTable.truncate_eq_ok t n
      obtain ⟨tables', hrun, hkeys, hitems⟩ := ih (tables.insert k₀ t')
      have hmem : k₀ ∈ tables := AList.lookup_isSome.1 (by simp [hk])
      refine ⟨tables', by simp [eachTable, hk, ht, hrun], fun k => ?_, fun k => ?_⟩
      · rw [hkeys, AList.mem_insert]
        exact ⟨fun h => h.elim (· ▸ hmem) id, Or.inr⟩
      · rw [hitems k, itemCounts_insert]
        by_cases h : k = k₀
        · -- truncating twice to `n` is truncating once
          subst h
          simp [itemCounts, hk, hitems']
        · simp [h]

/-- The loop of `repair` computes the least count, below every table's. -/
theorem foldl_min_le (l : List (Σ _ : String, FreezerTable)) (init : Nat) :
    l.foldl (fun min e => if min > e.2.items then e.2.items else min) init ≤ init ∧
      ∀ e ∈ l, l.foldl (fun min e => if min > e.2.items then e.2.items else min) init ≤ e.2.items := by
  induction l generalizing init with
  | nil => simp
  | cons e l ih =>
    obtain ⟨hinit, hall⟩ := ih (if init > e.2.items then e.2.items else init)
    have hstep : (if init > e.2.items then e.2.items else init) ≤ init ∧
        (if init > e.2.items then e.2.items else init) ≤ e.2.items := by
      split_ifs <;> omega
    refine ⟨hinit.trans hstep.1, fun x hx => ?_⟩
    rcases List.mem_cons.1 hx with rfl | hx
    · exact hinit.trans hstep.2
    · exact hall x hx

/-- The least count is one of the counts, or the start value. -/
theorem foldl_min_mem (l : List (Σ _ : String, FreezerTable)) (init : Nat) :
    l.foldl (fun min e => if min > e.2.items then e.2.items else min) init = init ∨
      ∃ e ∈ l, l.foldl (fun min e => if min > e.2.items then e.2.items else min) init = e.2.items := by
  induction l generalizing init with
  | nil => simp
  | cons e l ih =>
    rcases ih (if init > e.2.items then e.2.items else init) with h | ⟨x, hx, h⟩
    · rw [List.foldl_cons, h]
      split_ifs
      · exact .inr ⟨e, List.mem_cons_self, rfl⟩
      · exact .inl rfl
    · exact .inr ⟨x, List.mem_cons_of_mem _ hx, h⟩

namespace Freezer

/-- `repair` cannot fail, and leaves every table with the least count,
which becomes `frozen`. -/
theorem repair_spec (f : Freezer) :
    ∃ f', f.repair = (f', none) ∧ (∀ k, k ∈ f'.tables ↔ k ∈ f.tables) ∧
      f'.frozen = f.tables.entries.foldl (fun min e => if min > e.2.items then e.2.items else min) (2 ^ 64 - 1) ∧
      ∀ k, itemCounts f'.tables k = (itemCounts f.tables k).map fun _ => f'.frozen := by
  obtain ⟨tables', hrun, hkeys, hitems⟩ := eachTable_truncate
    (f.tables.entries.foldl (fun min e => if min > e.2.items then e.2.items else min) (2 ^ 64 - 1))
    f.tables f.tables.keys
  refine ⟨⟨_, tables'⟩, by simp only [repair, hrun], hkeys, rfl, fun k => ?_⟩
  rw [hitems k]
  cases hk : f.tables.lookup k with
  | none => simp [itemCounts, hk]
  | some t =>
    -- the table is among the keys the loop visits, and holds at least the least count
    have hkey : k ∈ f.tables.keys := AList.mem_keys.1 (AList.lookup_isSome.1 (by simp [hk]))
    have hle := (foldl_min_le f.tables.entries (2 ^ 64 - 1)).2 ⟨k, t⟩ (AList.mem_lookup_iff.1 hk)
    simp only [itemCounts, hk, Option.map_some, if_pos hkey]
    rw [Nat.min_eq_right hle]

variable (codec : Codec)

/-- The appends to the tables of the kinds of `l`, each kind once and each
present, stop at the first failure. After all of them each table of `l`
counts one more item. After a failure each table counts as many as before or,
if it is one of `l`, one more; and one of `l`, the one that failed, counts as
many as before. -/
theorem appendTables_spec (f : Freezer) (l : List (String × List UInt8))
    (hnd : (l.map Prod.fst).Nodup) (hmem : ∀ p ∈ l, p.1 ∈ f.tables) :
    ∃ f' e, f.appendTables codec l = some (f', e) ∧ f'.frozen = f.frozen ∧
      (∀ k, k ∈ f'.tables ↔ k ∈ f.tables) ∧
      (e = none → ∀ k, itemCounts f'.tables k =
        (itemCounts f.tables k).map fun i => if k ∈ l.map Prod.fst then i + 1 else i) ∧
      (e ≠ none →
        (∀ k, itemCounts f'.tables k = itemCounts f.tables k ∨
          (k ∈ l.map Prod.fst ∧ itemCounts f'.tables k = (itemCounts f.tables k).map (· + 1))) ∧
        ∃ k ∈ l.map Prod.fst, itemCounts f'.tables k = itemCounts f.tables k) := by
  induction l generalizing f with
  | nil => exact ⟨f, none, rfl, rfl, fun _ => Iff.rfl, fun _ k => by simp, fun h => absurd rfl h⟩
  | cons p rest ih =>
    obtain ⟨kind, blob⟩ := p
    rw [List.map_cons, List.nodup_cons] at hnd
    obtain ⟨t, ht⟩ := Option.isSome_iff_exists.1 (AList.lookup_isSome.2 (hmem _ List.mem_cons_self))
    cases hA : t.Append codec f.frozen blob with
    | error e =>
      -- this table fails: nothing has changed
      refine ⟨f, some e, by simp [appendTables, ht, hA], rfl, fun _ => Iff.rfl, fun h => by simp at h,
        fun _ => ⟨fun _ => .inl rfl, kind, List.mem_cons_self, rfl⟩⟩
    | ok t₁ =>
      -- this table counts one more, then the others are appended to
      have h₁ := FreezerTable.Append_items codec hA
      obtain ⟨f', e, hrun, hfrozen, hkeys, hnone, hsome⟩ :=
        ih { f with tables := f.tables.insert kind t₁ } hnd.2 fun q hq =>
          (AList.mem_insert _).2 (.inr (hmem q (List.mem_cons_of_mem _ hq)))
      have hkind : kind ∈ f.tables := hmem _ List.mem_cons_self
      have hcount : ∀ k, itemCounts (f.tables.insert kind t₁) k =
          if k = kind then (itemCounts f.tables k).map (· + 1) else itemCounts f.tables k := by
        intro k
        rw [itemCounts_insert]
        by_cases hk : k = kind
        · subst hk
          simp [itemCounts, ht, h₁]
        · simp [hk]
      refine ⟨f', e, by simp [appendTables, ht, hA, hrun], hfrozen, fun k => ?_, fun he k => ?_,
        fun he => ⟨fun k => ?_, ?_⟩⟩
      · rw [hkeys, AList.mem_insert]
        exact ⟨fun h => h.elim (· ▸ hkind) id, Or.inr⟩
      · rw [hnone he k, hcount]
        by_cases hk : k = kind
        · subst hk
          simp [hnd.1, Function.comp_def]
        · have hmem' : k ∈ ((kind, blob) :: rest).map Prod.fst ↔ k ∈ rest.map Prod.fst := by simp [hk]
          simp only [if_neg hk, hmem']
      · rcases (hsome he).1 k with h | ⟨hk', h⟩
        · rw [h, hcount]
          by_cases hk : k = kind
          · exact .inr ⟨hk ▸ List.mem_cons_self, by simp [hk]⟩
          · exact .inl (if_neg hk)
        · have hk : k ≠ kind := fun hk => hnd.1 (hk ▸ hk')
          rw [h, hcount, if_neg hk]
          exact .inr ⟨List.mem_cons_of_mem _ hk', rfl⟩
      · obtain ⟨k, hk', h⟩ := (hsome he).2
        have hk : k ≠ kind := fun hk => hnd.1 (hk ▸ hk')
        exact ⟨k, List.mem_cons_of_mem _ hk', by rw [h, hcount, if_neg hk]⟩

end Freezer

/-! ## The tables move together -/

/-- A freezer whose tables are the five kinds, each holding `frozen` items. -/
structure InStep (f : Freezer) : Prop where
  kinds : ∀ k, k ∈ f.tables ↔ k ∈ freezerKinds
  items : ∀ k n, itemCounts f.tables k = some n → n = f.frozen

theorem freezerKinds_nodup : freezerKinds.Nodup := by decide

theorem itemCounts_of_mem {tables : GoMap String FreezerTable} {e : Σ _ : String, FreezerTable}
    (he : e ∈ tables.entries) : itemCounts tables e.1 = some e.2.items := by
  have h : tables.lookup e.1 = some e.2 := AList.mem_lookup_iff.2 he
  simp [itemCounts, h]

/-- In a freezer in step, every kind counts `frozen` items. -/
theorem InStep.itemCounts_kind {f : Freezer} (hf : InStep f) {k : String} (hk : k ∈ freezerKinds) :
    itemCounts f.tables k = some f.frozen := by
  obtain ⟨t, ht⟩ := Option.isSome_iff_exists.1 (AList.lookup_isSome.2 ((hf.kinds k).2 hk))
  have hc : itemCounts f.tables k = some t.items := by simp [itemCounts, ht]
  rw [hc, hf.items k t.items hc]

namespace Freezer

variable (codec : Codec) {f : Freezer}

/-- `TruncateAncients` cannot fail, and cuts every table to the new `frozen`. -/
theorem TruncateAncients_spec (hf : InStep f) (n : Nat) :
    ∃ f', f.TruncateAncients n = (f', none) ∧ InStep f' ∧ f'.frozen = min f.frozen n := by
  by_cases hle : f.frozen ≤ n
  · exact ⟨f, if_pos hle, hf, (Nat.min_eq_left hle).symm⟩
  · obtain ⟨tables', hrun, hkeys, hitems⟩ := eachTable_truncate n f.tables f.tables.keys
    refine ⟨⟨n, tables'⟩, by simp only [TruncateAncients, if_neg hle, hrun], ⟨fun k => ?_, fun k i hi => ?_⟩,
      (Nat.min_eq_right (Nat.le_of_not_le hle)).symm⟩
    · rw [hkeys, hf.kinds]
    · -- every table held `frozen` items, more than `n`
      rw [hitems k] at hi
      obtain ⟨j, hj, rfl⟩ := Option.map_eq_some_iff.1 hi
      obtain ⟨t, ht, -⟩ := Option.map_eq_some_iff.1 hj
      have hkey : k ∈ f.tables.keys := AList.mem_keys.1 (AList.lookup_isSome.1 (by simp [ht]))
      rw [if_pos hkey, hf.items k j hj]
      exact Nat.min_eq_right (Nat.le_of_not_le hle)

/-- After a failed append the least count is `frozen` again: the table that
failed still holds `frozen` items, and none holds fewer. -/
theorem least_count_after_failure (hf : InStep f) (hb : f.frozen < 2 ^ 64) {f₁ : Freezer}
    (hsome : (∀ k, itemCounts f₁.tables k = itemCounts f.tables k ∨
        (k ∈ freezerKinds ∧ itemCounts f₁.tables k = (itemCounts f.tables k).map (· + 1))) ∧
      ∃ k ∈ freezerKinds, itemCounts f₁.tables k = itemCounts f.tables k) :
    f₁.tables.entries.foldl (fun min e => if min > e.2.items then e.2.items else min) (2 ^ 64 - 1) =
      f.frozen := by
  -- every table counts at least `frozen`
  have hge : ∀ e ∈ f₁.tables.entries, f.frozen ≤ e.2.items := by
    intro e he
    have hc := itemCounts_of_mem he
    rcases hsome.1 e.1 with h | ⟨-, h⟩
    · rw [hc] at h
      exact (hf.items e.1 e.2.items h.symm).symm.le
    · rw [hc] at h
      obtain ⟨i, hi, hie⟩ := Option.map_eq_some_iff.1 h.symm
      rw [← hie, hf.items e.1 i hi]
      exact Nat.le_succ _
  -- the failed table counts exactly `frozen`
  obtain ⟨k, hk, hkc⟩ := hsome.2
  rw [hf.itemCounts_kind hk] at hkc
  obtain ⟨t, ht, htk⟩ := Option.map_eq_some_iff.1 hkc
  have hmem : (⟨k, t⟩ : Σ _ : String, FreezerTable) ∈ f₁.tables.entries := AList.mem_lookup_iff.1 ht
  apply le_antisymm
  · exact htk ▸ (foldl_min_le _ _).2 _ hmem
  · rcases foldl_min_mem f₁.tables.entries (2 ^ 64 - 1) with h | ⟨e, he, h⟩
    · rw [h]
      omega
    · rw [h]
      exact hge e he

/-- `AppendAncient` from a freezer in step, below `2^64` blocks, does not
crash. It fails with `errOutOrderInsertion` exactly when the number is not
`frozen`. Otherwise it appends the block to all five tables, or, when one of
the appends fails, `repair` cuts the others back: the freezer is in step
afterwards, with one more block or as many as before. -/
theorem AppendAncient_spec (hf : InStep f) (hb : f.frozen < 2 ^ 64) (number : Nat)
    (hash header body receipts td : List UInt8) :
    ∃ f' err, f.AppendAncient codec number hash header body receipts td = some (f', err) ∧
      InStep f' ∧ ((err = none ∧ f'.frozen = f.frozen + 1) ∨ (err ≠ none ∧ f'.frozen = f.frozen)) ∧
      (err = some .errOutOrderInsertion ↔ f.frozen ≠ number) := by
  by_cases hn : f.frozen ≠ number
  · exact ⟨f, _, if_pos hn, hf, .inr ⟨by simp, rfl⟩, by simp [hn]⟩
  · obtain ⟨f₁, e, hrun, hfrozen, hkeys, hnone, hsome⟩ := appendTables_spec codec f
      [(freezerHashTable, hash), (freezerHeaderTable, header), (freezerBodiesTable, body),
        (freezerReceiptTable, receipts), (freezerDifficultyTable, td)]
      freezerKinds_nodup fun p hp => (hf.kinds p.1).2 (by
        simp only [List.mem_cons, List.mem_nil_iff, or_false] at hp
        rcases hp with rfl | rfl | rfl | rfl | rfl <;> simp [freezerKinds])
    have hl : ([(freezerHashTable, hash), (freezerHeaderTable, header), (freezerBodiesTable, body),
        (freezerReceiptTable, receipts), (freezerDifficultyTable, td)] : List (String × List UInt8)).map
        Prod.fst = freezerKinds := rfl
    rw [hl] at hnone hsome
    cases e with
    | none =>
      -- all five appends went through
      refine ⟨{ f₁ with frozen := f₁.frozen + 1 }, none, by simp [AppendAncient, hn, hrun],
        ⟨fun k => ?_, fun k n hk => ?_⟩, .inl ⟨rfl, by rw [hfrozen]⟩, by simp [hn]⟩
      · exact (hkeys k).trans (hf.kinds k)
      · rw [hnone rfl k] at hk
        obtain ⟨i, hi, rfl⟩ := Option.map_eq_some_iff.1 hk
        have hkind : k ∈ freezerKinds := by
          obtain ⟨t, ht, -⟩ := Option.map_eq_some_iff.1 hi
          exact (hf.kinds k).1 (AList.lookup_isSome.1 (by simp [ht]))
        rw [if_pos hkind, hf.items k i hi, hfrozen]
    | some e =>
      -- one append failed; `repair` brings all tables to the least count, which is `frozen`
      obtain ⟨f₂, hrep, hkeys₂, hmin, hitems₂⟩ := repair_spec f₁
      have hm : f₂.frozen = f.frozen := hmin.trans (least_count_after_failure hf hb (hsome (by simp)))
      refine ⟨f₂, some (.table e), by simp [AppendAncient, hn, hrun, hrep],
        ⟨fun k => ?_, fun k n hk => ?_⟩, .inr ⟨by simp, hm⟩, by simp [hn]⟩
      · exact (hkeys₂ k).trans ((hkeys k).trans (hf.kinds k))
      · rw [hitems₂ k] at hk
        obtain ⟨_, -, rfl⟩ := Option.map_eq_some_iff.1 hk
        rfl

end Freezer

/-- The tables `newFreezer` opens are the five kinds. -/
theorem keys_freezerNoSnappy : freezerNoSnappy.keys.Perm freezerKinds := by decide

/-- `newFreezer` opens the five tables and repairs them: a freezer starts in step. -/
theorem newFreezer_inStep {disks : String → Disk} {f : Freezer} (h : newFreezer disks = .ok f) :
    InStep f := by
  unfold newFreezer at h
  obtain ⟨tables, hfold, h⟩ := ExceptRun.bind_eq_ok.1 h
  -- the loop opens one table for each entry of `freezerNoSnappy`
  have hkeys : ∀ k, k ∈ tables ↔ k ∈ freezerNoSnappy.keys := by
    refine ExceptRun.foldlM_ok_induction freezerNoSnappy.entries
      (fun pre (tables : GoMap String FreezerTable) => ∀ k, k ∈ tables ↔ k ∈ pre.map Sigma.fst)
      (fun pre x post s s' _ hx hp k => ?_) hfold (fun k => by simp)
    obtain ⟨table, -, hs'⟩ := ExceptRun.bind_eq_ok.1 hx
    rw [← ExceptRun.pure_eq_ok.1 hs', AList.mem_insert, hp k]
    simp [or_comm]
  obtain ⟨f', hrep, hkeys', -, hitems⟩ := Freezer.repair_spec ⟨0, tables⟩
  rw [hrep] at h
  obtain rfl := ExceptRun.pure_eq_ok.1 h
  refine ⟨fun k => (hkeys' k).trans ((hkeys k).trans keys_freezerNoSnappy.mem_iff), fun k n hk => ?_⟩
  rw [hitems k] at hk
  obtain ⟨_, -, rfl⟩ := Option.map_eq_some_iff.1 hk
  rfl

/-- From a freezer whose five tables all hold `frozen` items, below `2^64`:
`AppendAncient` either appends to all five and counts one more block, or
fails, out of order or in one table's append, and leaves all five at `frozen`;
`TruncateAncients` cuts all five to the new `frozen`. `repair` of any freezer
leaves every table with the new `frozen`. -/
theorem freezer_tables_move_together (codec : Codec) (f : Freezer) (hf : InStep f)
    (hb : f.frozen < 2 ^ 64) :
    (∀ number hash header body receipts td, ∃ f' err,
      f.AppendAncient codec number hash header body receipts td = some (f', err) ∧ InStep f' ∧
      ((err = none ∧ f'.frozen = f.frozen + 1) ∨ (err ≠ none ∧ f'.frozen = f.frozen)) ∧
      (err = some .errOutOrderInsertion ↔ f.frozen ≠ number)) ∧
    (∀ n, ∃ f', f.TruncateAncients n = (f', none) ∧ InStep f' ∧ f'.frozen = min f.frozen n) ∧
    (∀ g : Freezer, ∃ g', g.repair = (g', none) ∧ (∀ k, k ∈ g'.tables ↔ k ∈ g.tables) ∧
      ∀ k n, itemCounts g'.tables k = some n → n = g'.frozen) := by
  refine ⟨Freezer.AppendAncient_spec codec hf hb, Freezer.TruncateAncients_spec hf, fun g => ?_⟩
  obtain ⟨g', hrep, hkeys, -, hitems⟩ := Freezer.repair_spec g
  refine ⟨g', hrep, hkeys, fun k n hk => ?_⟩
  rw [hitems k] at hk
  obtain ⟨_, -, rfl⟩ := Option.map_eq_some_iff.1 hk
  rfl

/-- A table of 40-byte files holding nothing: the index holds its one zero
entry, and data file 0 is open and empty. -/
def emptyTable : FreezerTable := ⟨0, true, 40, ⟨[0, 0, 0, 0, 0, 0], ∅⟩, [0], 0, 0, 0, 0, true⟩

/-- Five empty tables at block 0. -/
def emptyFreezer : Freezer :=
  ⟨0, ⟨[⟨freezerHashTable, emptyTable⟩, ⟨freezerHeaderTable, emptyTable⟩,
    ⟨freezerBodiesTable, emptyTable⟩, ⟨freezerReceiptTable, emptyTable⟩,
    ⟨freezerDifficultyTable, emptyTable⟩], freezerKinds_nodup⟩⟩

theorem emptyFreezer_inStep : InStep emptyFreezer := by
  refine ⟨fun k => AList.mem_keys, fun k n hk => ?_⟩
  obtain ⟨t', ht', rfl⟩ := Option.map_eq_some_iff.1 hk
  have hmem := AList.mem_lookup_iff.1 ht'
  simp only [emptyFreezer, List.mem_cons, Sigma.mk.inj_iff, heq_eq_eq, List.not_mem_nil,
    or_false] at hmem
  rcases hmem with ⟨-, rfl⟩ | ⟨-, rfl⟩ | ⟨-, rfl⟩ | ⟨-, rfl⟩ | ⟨-, rfl⟩ <;> rfl

/-- Two blocks appended to five empty tables, then the second cut off again:
both appends reach all five tables, and the cut takes all five back to one
block. -/
theorem freezer_tables_move_together_on_two_blocks :
    ∃ f₁ f₂ f₃, emptyFreezer.AppendAncient rawCodec 0 [1] [2] [3] [4] [5] = some (f₁, none) ∧
      f₁.AppendAncient rawCodec 1 [6] [7] [8] [9] [10] = some (f₂, none) ∧ f₂.frozen = 2 ∧
      f₂.TruncateAncients 1 = (f₃, none) ∧ InStep f₃ ∧ f₃.frozen = 1 := by
  -- both appends return no error
  have hok : (emptyFreezer.AppendAncient rawCodec 0 [1] [2] [3] [4] [5]).bind (fun r =>
      (r.1.AppendAncient rawCodec 1 [6] [7] [8] [9] [10]).map fun r' => (r.2, r'.2)) =
      some (none, none) := by
    decide +kernel
  obtain ⟨f₁, e₁, h₁, hs₁, hf₁, -⟩ :=
    (freezer_tables_move_together rawCodec _ emptyFreezer_inStep (by decide)).1 0 [1] [2] [3] [4] [5]
  obtain ⟨f₂, e₂, h₂, hs₂, hf₂, -⟩ :=
    (freezer_tables_move_together rawCodec f₁ hs₁ (by simp [emptyFreezer] at hf₁; omega)).1 1
      [6] [7] [8] [9] [10]
  rw [h₁, Option.bind_some, h₂, Option.map_some, Option.some_inj, Prod.mk.injEq] at hok
  obtain ⟨rfl, rfl⟩ := hok
  have hfr₁ : f₁.frozen = 1 := by
    rcases hf₁ with ⟨-, h⟩ | ⟨h, -⟩
    · simpa [emptyFreezer] using h
    · exact absurd rfl h
  have hfr₂ : f₂.frozen = 2 := by
    rcases hf₂ with ⟨-, h⟩ | ⟨h, -⟩
    · omega
    · exact absurd rfl h
  obtain ⟨f₃, h₃, hs₃, hfr₃⟩ := (freezer_tables_move_together rawCodec f₂ hs₂ (by omega)).2.1 1
  exact ⟨f₁, f₂, f₃, h₁, h₂, hfr₂, h₃, hs₃, by omega⟩

end Btp.Rawdb
